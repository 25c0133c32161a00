import Windmill.Trash.Items

/-! # Restoring from the trash

What holds of the store before an item is deleted holds again after it is restored if the restore is
`Restorable`: a restored schedule is given no job and a restored trigger neither a check of its
route nor a `nextval`, so that the queue, the routes and the version of the cache have to be right
already. -/

namespace Windmill.Trash.Restore

open Lib Lib.Run Schedule.Tick Trigger Trash Items List
open Trigger.Routes hiding Error insertAll
open Trigger.Routers (BuiltFrom)
open Trigger.Clashes (Proper Apart Good NoClash handle_eq_statements renamed_fullPath_eq_iff)

variable {D : Type} {cfg : Settings} {conflict : List Char → List Char → Bool} {links : Links D}
  {data : TrashData D} {key : Key} {s : Store D}

/-! ### What holds of the store -/

def Alive (s : Store D) : Prop :=
  ∀ key schedule, s.schedules key = some schedule → schedule.enabled = true → ∃ job ∈ s.queue,
    job.trigger = key

/-- A refresh caches the routers of the triggers that are stored. -/
def Served (cfg : Settings) (conflict : List Char → List Char → Bool) (s : Store D) : Prop :=
  BuiltFrom cfg conflict s.triggers (refreshRouters cfg conflict s).cache.routers

/-- The rows are in order, and served. -/
structure Sound (cfg : Settings) (conflict : List Char → List Char → Bool) (s : Store D) :
  Prop where
  alive : Alive s
  noClash : NoClash cfg s.triggers
  served : Served cfg conflict s

def Outdated (s : Store D) : Prop := s.cache.version = 0 ∨ s.lastValue > s.cache.version

lemma served_iff : Served cfg conflict s ↔
    (¬Outdated s → BuiltFrom cfg conflict s.triggers s.cache.routers) := by
  unfold Served refreshRouters Outdated
  split_ifs with h
  · exact ⟨fun _ hnot => absurd h hnot, fun _ method => rfl⟩
  · exact ⟨fun hserv _ => hserv, fun hserv => hserv h⟩

/-- What can be in the trash: rows that were stored. -/
def WellFormed (cfg : Settings) : TrashData D → Prop
  | .rows kind _ linked => (∀ row ∈ linked, row.1 ≠ kind.table) ∧
      linked.Pairwise fun row row' => ¬(row.1 = row'.1 ∧ row.2.primaryKey = row'.2.primaryKey)
  | .schedule _ => True
  | .httpTrigger row => Proper cfg row

/-- What the database and the requests keep in any case. -/
structure Stored (cfg : Settings) (s : Store D) : Prop where
  keys : (s.triggers.map Row.key).Nodup
  proper : ∀ row ∈ s.triggers, Proper cfg row
  version : s.cache.version ≤ s.lastValue
  tables : ∀ table, ((s.tables table).map Record.primaryKey).Nodup
  wellFormed : ∀ item ∈ s.trash, WellFormed cfg item.data
  ids : ∀ item ∈ s.trash, item.id < s.nextId

structure Inv (cfg : Settings) (conflict : List Char → List Char → Bool) (s : Store D) : Prop where
  alive : Alive s
  good : Good cfg s.triggers
  current : ¬Outdated s → BuiltFrom cfg conflict s.triggers s.cache.routers
  version : s.cache.version ≤ s.lastValue
  tables : ∀ table, ((s.tables table).map Record.primaryKey).Nodup
  wellFormed : ∀ item ∈ s.trash, WellFormed cfg item.data
  ids : ∀ item ∈ s.trash, item.id < s.nextId

lemma Inv.sound (h : Inv cfg conflict s) : Sound cfg conflict s :=
  ⟨h.alive, h.good.noClash, served_iff.mpr h.current⟩

lemma inv_of_sound (h : Stored cfg s) (hsound : Sound cfg conflict s) : Inv cfg conflict s where
  alive := hsound.alive
  good := ⟨h.keys, h.proper, hsound.noClash.imp_of_mem fun hrow hrow' hne hmeth heq =>
    hne hmeth ((renamed_fullPath_eq_iff (h.proper _ hrow) (h.proper _ hrow')).mpr heq)⟩
  current := served_iff.mp hsound.served
  version := h.version
  tables := h.tables
  wellFormed := h.wellFormed
  ids := h.ids

lemma Inv.stored (h : Inv cfg conflict s) : Stored cfg s :=
  ⟨h.good.keys, h.good.proper, h.version, h.tables, h.wellFormed, h.ids⟩

lemma Inv.moveToTrash (h : Inv cfg conflict s) {item : Key}
    (hdata : WellFormed cfg data) : Inv cfg conflict (moveToTrash s item data) where
  alive := h.alive
  good := h.good
  current := h.current
  version := h.version
  tables := h.tables
  wellFormed other hother := by
    rcases mem_append.mp hother with hother | hother
    · exact h.wellFormed other hother
    · cases mem_singleton.mp hother
      exact hdata
  ids other hother := by
    rcases mem_append.mp hother with hother | hother
    · exact (h.ids other hother).trans (Nat.lt_succ_self _)
    · cases mem_singleton.mp hother
      exact Nat.lt_succ_self _

/-! ### Schedules -/

section Schedules

variable {s' : Store D} {schedule : Schedule D} {w : Surroundings}

def AliveBut (s : Store D) (key : Key) : Prop :=
  ∀ key' schedule, key' ≠ key → s.schedules key' = some schedule → schedule.enabled = true →
    ∃ job ∈ s.queue, job.trigger = key'

lemma aliveBut_setSchedule (h : Alive s) (x : Option (Schedule D)) :
    AliveBut (setSchedule s key x) key := by
  intro key' schedule hne hsched
  have hold : Function.update s.schedules key x key' = some schedule := hsched
  rw [Function.update_of_ne hne] at hold
  exact h key' schedule hold

lemma aliveBut_clearSchedule (h : AliveBut s key) : AliveBut (clearSchedule s key) key := by
  intro key' schedule hne hsched hen
  obtain ⟨job, hjob, htrig⟩ := h key' schedule hne hsched hen
  have hother : ¬(job.trigger = key ∧ job.running = false) := fun hand => hne (htrig ▸ hand.1)
  exact ⟨job, mem_filter.mpr ⟨hjob, decide_eq_true hother⟩, htrig⟩

lemma alive_of_aliveBut (h : AliveBut s key)
    (hkey : ∀ schedule, s.schedules key = some schedule → schedule.enabled = true → ∃ job ∈ s.queue,
      job.trigger = key) : Alive s := by
  intro key' schedule hsched hen
  by_cases hne : key' = key
  · subst hne
    exact hkey schedule hsched hen
  · exact h key' schedule hne hsched hen

lemma setSchedule_self (s : Store D) (key : Key) (x : Option (Schedule D)) :
    (setSchedule s key x).schedules key = x := by
  exact Function.update_self key x s.schedules

lemma mem_queue_pushScheduledJob (s : Store D) (now : ℤ) (key : Key) (schedule : Schedule D) :
    ∃ job ∈ (pushScheduledJob s now key schedule).queue, job.trigger = key := by
  unfold pushScheduledJob
  dsimp only
  split_ifs with hany
  · obtain ⟨job, hjob, hand⟩ := any_eq_true.mp hany
    exact ⟨job, hjob, (of_decide_eq_true hand).1⟩
  · exact ⟨_, mem_append_right _ (mem_singleton_self _), rfl⟩

lemma alive_pushScheduledJob (h : AliveBut s key) (now : ℤ) (schedule : Schedule D) :
    Alive (pushScheduledJob s now key schedule) := by
  refine alive_of_aliveBut (fun key' schedule' hne hsched hen => ?_) fun _ _ _ =>
    mem_queue_pushScheduledJob s now key schedule
  have hold : Function.update s.schedules key _ key' = some schedule' := hsched
  rw [Function.update_of_ne hne] at hold
  obtain ⟨job, hjob, htrig⟩ := h key' schedule' hne hold hen
  refine ⟨job, ?_, htrig⟩
  unfold pushScheduledJob
  dsimp only
  split_ifs
  · exact hjob
  · exact mem_append_left _ hjob

/-- The stores differ only in their schedules and jobs. -/
structure SameRest (s s' : Store D) : Prop where
  triggers : s'.triggers = s.triggers
  lastValue : s'.lastValue = s.lastValue
  cache : s'.cache = s.cache
  tables : s'.tables = s.tables
  trash : s'.trash = s.trash
  nextId : s'.nextId = s.nextId

lemma Inv.rescheduled (hinv : Inv cfg conflict s) (h : SameRest s s' ∧ (Alive s → Alive s')) :
    Inv cfg conflict s' := by
  obtain ⟨h, halive⟩ := h
  obtain ⟨schedules', queue', triggers', lastValue', cache', tables', trash', nextId'⟩ := s'
  obtain ⟨rfl, rfl, rfl, rfl, rfl, rfl⟩ := h
  exact ⟨halive hinv.alive, hinv.good, hinv.current, hinv.version, hinv.tables, hinv.wellFormed,
    hinv.ids⟩

lemma tryPush_eq_ok (h : tryPush s w key schedule = .ok s') :
    s' = pushScheduledJob s w.now key schedule := by
  unfold tryPush at h
  split at h
  · cases h
  · cases h
    rfl

lemma createSchedule_eq_ok {ns} (h : createSchedule s w key ns = .ok s') :
    SameRest s s' ∧ (Alive s → Alive s') := by
  unfold createSchedule at h
  split at h
  · cases h
  dsimp only at h
  split_ifs at h with hpush
  · cases tryPush_eq_ok h
    exact ⟨⟨rfl, rfl, rfl, rfl, rfl, rfl⟩, fun halive =>
      alive_pushScheduledJob (aliveBut_setSchedule halive _) _ _⟩
  cases h
  refine ⟨⟨rfl, rfl, rfl, rfl, rfl, rfl⟩, fun halive => ?_⟩
  refine alive_of_aliveBut (aliveBut_setSchedule halive _) fun schedule hsched hen => ?_
  -- the job is not pushed only for a schedule that is explicitly disabled
  rw [setSchedule_self] at hsched
  cases hsched
  cases hns : ns.enabled with
  | none => exact absurd (by rw [hns]; rfl) hpush
  | some enabled =>
    rw [hns] at hpush hen
    exact absurd hen hpush

lemma updateSchedule_eq_ok (h : updateSchedule s w key schedule = .ok s') :
    SameRest s s' ∧ (Alive s → Alive s') := by
  unfold updateSchedule at h
  split_ifs at h with hen
  · cases tryPush_eq_ok h
    exact ⟨⟨rfl, rfl, rfl, rfl, rfl, rfl⟩, fun halive =>
      alive_pushScheduledJob (aliveBut_clearSchedule (aliveBut_setSchedule halive _)) _ _⟩
  cases h
  refine ⟨⟨rfl, rfl, rfl, rfl, rfl, rfl⟩, fun halive => ?_⟩
  refine alive_of_aliveBut (aliveBut_clearSchedule (aliveBut_setSchedule halive _))
    fun schedule' hsched hen' => ?_
  have hself : (setSchedule s key (some schedule)).schedules key = some schedule' := hsched
  rw [setSchedule_self] at hself
  cases hself
  exact absurd hen' hen

lemma editSchedule_eq_ok {es} (h : editSchedule s w key es = .ok s') :
    SameRest s s' ∧ (Alive s → Alive s') := by
  unfold editSchedule at h
  split at h
  · cases h
  · exact updateSchedule_eq_ok h

lemma setEnabled_eq_ok {enabled : Bool} (h : setEnabled s w key enabled = .ok s') :
    SameRest s s' ∧ (Alive s → Alive s') := by
  unfold setEnabled at h
  split at h
  · cases h
  · exact updateSchedule_eq_ok h

lemma deleteSchedule_eq_ok (h : deleteSchedule s key = .ok s') :
    ∃ schedule, s.schedules key = some schedule ∧
      s' = moveToTrash (setSchedule (clearSchedule s key) key none) key (.schedule schedule) := by
  unfold deleteSchedule at h
  split at h
  · cases h
  · case _ schedule hsched =>
    cases h
    exact ⟨schedule, hsched, rfl⟩

lemma Inv.deleteSchedule (hinv : Inv cfg conflict s) (h : deleteSchedule s key = .ok s') :
    Inv cfg conflict s' := by
  obtain ⟨schedule, -, rfl⟩ := deleteSchedule_eq_ok h
  have hbut : AliveBut (clearSchedule (setSchedule s key none) key) key :=
    aliveBut_clearSchedule (aliveBut_setSchedule hinv.alive none)
  have halive : Alive (setSchedule (clearSchedule s key) key none) := by
    refine alive_of_aliveBut hbut fun schedule' hsched => ?_
    simp [setSchedule_self] at hsched
  have hrest : SameRest s (setSchedule (clearSchedule s key) key none) :=
    ⟨rfl, rfl, rfl, rfl, rfl, rfl⟩
  exact (hinv.rescheduled ⟨hrest, fun _ => halive⟩).moveToTrash trivial

end Schedules

/-! ### Triggers -/

variable {rows : List (Row D)} {row : Row D} {kind : ItemKind}

section Triggers

variable {s' : Store D}

lemma inv_setTriggers (hinv : Inv cfg conflict s) {lastValue : ℕ} (hgood : Good cfg rows)
    (hlast : s.lastValue < lastValue ∨ rows = s.triggers ∧ lastValue = s.lastValue) :
    Inv cfg conflict { s with triggers := rows, lastValue := lastValue } := by
  have hle : s.lastValue ≤ lastValue := by omega
  refine ⟨hinv.alive, hgood, fun hnot => ?_, hinv.version.trans hle, hinv.tables, hinv.wellFormed,
    hinv.ids⟩
  rcases hlast with hlt | ⟨rfl, rfl⟩
  · exact absurd (.inr (hinv.version.trans_lt hlt)) hnot
  · exact hinv.current hnot

variable {request : Request D}

lemma triggerRequest_eq_ok (h : triggerRequest cfg s request = .ok s') :
    ∃ rows, handle cfg s.triggers request = .ok rows ∧
      let stored := { s with triggers := rows, lastValue :=
  s.lastValue + (statements cfg request).length }
      s' = stored ∨ ∃ key row, row ∈ s.triggers ∧
      s' = moveToTrash stored key (.httpTrigger row) := by
  unfold triggerRequest at h
  split at h
  · cases h
  · case _ rows hhandle =>
    refine ⟨rows, hhandle, ?_⟩
    split at h
    · split at h
      · case _ row hrow =>
        cases h
        exact .inr ⟨_, row, mem_of_find?_eq_some hrow, rfl⟩
      · cases h
        exact .inl rfl
    · cases h
      exact .inl rfl

lemma Inv.triggerRequest (hinv : Inv cfg conflict s)
    (hcare : Clashes.Careful cfg s.triggers request) (h : triggerRequest cfg s request = .ok s') :
    Inv cfg conflict s' := by
  obtain ⟨rows, hhandle, hs'⟩ := triggerRequest_eq_ok h
  have hrows := handle_eq_statements hhandle
  have hstored : Inv cfg conflict { s with
      triggers := rows, lastValue := s.lastValue + (statements cfg request).length } := by
    refine inv_setTriggers hinv (hinv.good.handle hcare hhandle) ?_
    cases hstmts : statements cfg request with
    | nil =>
      rw [hstmts] at hrows
      exact .inr ⟨hrows, rfl⟩
    | cons statement others => exact .inl (by rw [length_cons]; omega)
  rcases hs' with rfl | ⟨key, row, hrow, rfl⟩
  · exact hstored
  · exact hstored.moveToTrash (hinv.good.proper row hrow)

lemma Inv.refreshRouters (hinv : Inv cfg conflict s) :
    Inv cfg conflict (refreshRouters cfg conflict s) := by
  unfold Items.refreshRouters
  split_ifs
  · exact ⟨hinv.alive, hinv.good, fun _ _ => rfl, le_rfl, hinv.tables, hinv.wellFormed, hinv.ids⟩
  · exact hinv

end Triggers

/-! ### Other items -/

section Rows

variable {s' : Store D} {tables tables' : Table → List (Record D)} {table : Table} {r : Record D}

lemma mem_allTables (table : Table) : table ∈ allTables := by
  cases table with
  | trigger table => cases table <;> decide
  | _ => decide

lemma taken_iff : taken tables table r = true ↔
    r.primaryKey ∈ (tables table).map Record.primaryKey := by
  unfold taken
  simp

lemma insertInto_self : insertInto tables table r table = tables table ++ [r] := by
  exact Function.update_self ..

lemma insertInto_of_ne {other : Table} (h : other ≠ table) :
    insertInto tables table r other = tables other := by
  exact Function.update_of_ne h ..

lemma mem_insertInto {other r'} :
    r' ∈ insertInto tables table r other ↔ r' ∈ tables other ∨ other = table ∧ r' = r := by
  by_cases h : other = table
  · subst h
    rw [insertInto_self]
    simp
  · rw [insertInto_of_ne h]
    simp [h]

lemma nodup_insertInto (h : ∀ other, ((tables other).map Record.primaryKey).Nodup)
    (hfree : ¬taken tables table r = true) (other : Table) :
    ((insertInto tables table r other).map Record.primaryKey).Nodup := by
  by_cases hother : other = table
  · subst hother
    rw [insertInto_self, map_append]
    exact nodup_append_comm.mpr (nodup_cons.mpr ⟨fun hmem => hfree (taken_iff.mpr hmem), h other⟩)
  · rw [insertInto_of_ne hother]
    exact h other

/-- **What `INSERT INTO` adds**: all rows, to the one table. -/
theorem insertRows_eq_ok : ∀ {rows : List (Record D)} {tables : Table → List (Record D)},
    insertRows table rows tables = .ok tables' →
    ((∀ other, ((tables other).map Record.primaryKey).Nodup) → ∀ other,
      ((tables' other).map Record.primaryKey).Nodup) ∧
      (∀ other r, r ∈ tables' other ↔ r ∈ tables other ∨ other = table ∧ r ∈ rows) ∧
      ∀ other, other ≠ table → tables' other = tables other
  | [], tables, h => by
    cases h
    refine ⟨id, fun other r => ?_, fun other _ => rfl⟩
    simp
  | r₀ :: rows, tables, h => by
    unfold insertRows at h
    split_ifs at h with hfree
    obtain ⟨hnd, hmem, hother⟩ := insertRows_eq_ok h
    refine ⟨fun hold => hnd (nodup_insertInto hold hfree), fun other r => ?_, fun other hne => ?_⟩
    · rw [hmem, mem_insertInto, mem_cons]
      tauto
    · rw [hother other hne, insertInto_of_ne hne]

lemma nodup_insertMissing : ∀ (linked : List (Table × Record D)) {tables : Table → List (Record D)},
    (∀ other, ((tables other).map Record.primaryKey).Nodup) →
    ∀ other, ((insertMissing linked tables other).map Record.primaryKey).Nodup
  | [], _, h => h
  | (table, r) :: linked, tables, h => by
    unfold insertMissing
    split_ifs with hfree
    · exact nodup_insertMissing linked h
    · exact nodup_insertMissing linked (nodup_insertInto h hfree)

/-- **What `ON CONFLICT DO NOTHING` adds**: the rows whose key is free. -/
theorem mem_insertMissing : ∀ {linked : List (Table × Record D)} {tables : Table → List (Record D)},
    (linked.Pairwise fun row row' => ¬(row.1 = row'.1 ∧ row.2.primaryKey = row'.2.primaryKey)) →
    ∀ other r, r ∈ insertMissing linked tables other ↔
      r ∈ tables other ∨ (other, r) ∈ linked ∧ taken tables other r = false
  | [], tables, _, other, r => by
    unfold insertMissing
    simp
  | (table, r₀) :: linked, tables, h, other, r => by
    obtain ⟨hhead, htail⟩ := pairwise_cons.mp h
    unfold insertMissing
    split_ifs with hfree
    · rw [mem_insertMissing htail, mem_cons]
      refine or_congr_right ⟨fun hand => ⟨.inr hand.1, hand.2⟩, fun hand =>
        ⟨hand.1.resolve_left ?_, hand.2⟩⟩
      rintro heq
      cases heq
      rw [hfree] at hand
      cases hand.2
    rw [mem_insertMissing htail, mem_insertInto, mem_cons, or_assoc]
    refine or_congr_right ⟨?_, ?_⟩
    · rintro (⟨rfl, rfl⟩ | ⟨hmem, hnot⟩)
      · exact ⟨.inl rfl, Bool.eq_false_iff.mpr hfree⟩
      refine ⟨.inr hmem, Bool.eq_false_iff.mpr fun htaken => ?_⟩
      obtain ⟨r', hr', hkey⟩ := mem_map.mp (taken_iff.mp htaken)
      have hin : taken (insertInto tables table r₀) other r = true :=
        taken_iff.mpr (mem_map.mpr ⟨r', mem_insertInto.mpr (.inl hr'), hkey⟩)
      simp [hnot] at hin
    · rintro ⟨heq | hmem, hnot⟩
      · cases heq
        exact .inl ⟨rfl, rfl⟩
      · refine .inr ⟨hmem, Bool.eq_false_iff.mpr fun htaken => ?_⟩
        obtain ⟨r', hr', hkey⟩ := mem_map.mp (taken_iff.mp htaken)
        rcases mem_insertInto.mp hr' with hold | ⟨rfl, rfl⟩
        · exact Bool.eq_false_iff.mp hnot (taken_iff.mpr (mem_map.mpr ⟨r', hold, hkey⟩))
        · exact hhead _ hmem ⟨rfl, hkey⟩

lemma restoreRows_eq_ok {item main linked} (h : restoreRows s item kind main linked = .ok s') :
    ∃ tables, insertRows kind.table main s.tables = .ok tables ∧
    s' = { s with tables := insertMissing linked tables } := by
  unfold restoreRows at h
  split_ifs at h
  obtain ⟨tables, htabs, rfl⟩ := Except.map_eq_ok.mp h
  exact ⟨tables, htabs, rfl⟩

lemma inv_setTables (hinv : Inv cfg conflict s)
    (h : ∀ table, ((tables table).map Record.primaryKey).Nodup) :
    Inv cfg conflict { s with tables := tables } :=
  ⟨hinv.alive, hinv.good, hinv.current, hinv.version, h, hinv.wellFormed, hinv.ids⟩

lemma wellFormed_linkedRows (h : ∀ table, ((s.tables table).map Record.primaryKey).Nodup) :
    WellFormed cfg (.rows kind (mainRows s kind key) (linkedRows links s kind key)) := by
  have htab : ∀ table, ∀ row ∈ (if table = kind.table then [] else
      ((s.tables table).filter (links kind (mainRows s kind key) table)).map fun r => (table, r)),
      table ≠ kind.table ∧ row.1 = table := by
    intro table row hrow
    split_ifs at hrow with hmain
    · exact absurd hrow not_mem_nil
    · obtain ⟨r, -, rfl⟩ := mem_map.mp hrow
      exact ⟨hmain, rfl⟩
  refine ⟨fun row hrow => ?_, pairwise_flatMap.mpr ⟨fun table _ => ?_, ?_⟩⟩
  · obtain ⟨table, -, hrow⟩ := mem_flatMap.mp hrow
    obtain ⟨hmain, hfst⟩ := htab table row hrow
    rwa [hfst]
  · split_ifs
    · exact List.Pairwise.nil
    · have hkeys : (s.tables table).Pairwise fun r r' => r.primaryKey ≠ r'.primaryKey :=
        pairwise_map.mp (h table)
      refine pairwise_map.mpr ((hkeys.sublist filter_sublist).imp fun hne hand => hne hand.2)
  · have hnd : allTables.Nodup := by decide
    refine hnd.imp fun hne row hrow row' hrow' hand => hne ?_
    rw [← (htab _ row hrow).2, ← (htab _ row' hrow').2]
    exact hand.1

lemma deleteItem_eq_some (h : deleteItem links s kind key = some s') :
    ∃ tables, (∀ table, (tables table).Sublist (s.tables table)) ∧ s' = moveToTrash
    { s with tables := tables } key
      (.rows kind (mainRows s kind key) (linkedRows links s kind key)) := by
  unfold deleteItem at h
  split_ifs at h
  cases h
  exact ⟨_, fun table => filter_sublist, rfl⟩

lemma Inv.deleteItem (hinv : Inv cfg conflict s)
    (h : deleteItem links s kind key = some s') : Inv cfg conflict s' := by
  obtain ⟨tables, hsub, rfl⟩ := deleteItem_eq_some h
  have hdel := inv_setTables hinv fun table => (hinv.tables table).sublist ((hsub table).map _)
  exact hdel.moveToTrash (wellFormed_linkedRows hinv.tables)

end Rows

/-! ### Restores -/

/-- Nothing has to be derived from the restored rows: a schedule is disabled or a job of it is still
running, the route of a trigger is free, and it is not served or the triggers have changed since the
last refresh. -/
def Restorable (cfg : Settings) (s : Store D) (item : Key) : TrashData D → Prop
  | .rows _ _ _ => True
  | .schedule row => row.enabled = true → ∃ job ∈ s.queue, job.trigger = item
  | .httpTrigger row => (∀ other ∈ s.triggers, Apart cfg row other) ∧
      (row.active = true → Outdated s)

/-- The captured rows are put back, except rows of other tables whose key is taken. -/
def PutBack (s s' : Store D) (item : Key) : TrashData D → Prop
  | .rows kind main linked => ∀ table r, r ∈ s'.tables table ↔
      r ∈ s.tables table ∨ table = kind.table ∧ r ∈ main ∨ (table, r) ∈ linked ∧
      taken s.tables table r = false
  | .schedule row => s'.schedules = Function.update s.schedules item (some row)
  | .httpTrigger row => s'.triggers = s.triggers ++ [row]

section Restores

variable {s' : Store D} {item : Key}

lemma restoreSchedule_eq_ok {row} (h : restoreSchedule s item row = .ok s') :
    s' = setSchedule s item (some row) := by
  unfold restoreSchedule at h
  split at h
  · cases h
  · cases h
    rfl

lemma restoreTrigger_eq_ok (h : restoreTrigger s item row = .ok s') :
    row.key ∉ s.triggers.map Row.key ∧ s' = { s with triggers := s.triggers ++ [row] } := by
  unfold restoreTrigger at h
  split_ifs at h with _ hkey
  cases h
  exact ⟨hkey, rfl⟩

lemma inv_restoreTrigger (hinv : Inv cfg conflict s) (hprop : Proper cfg row)
    (hcare : Restorable cfg s item (.httpTrigger row)) (hkey : row.key ∉ s.triggers.map Row.key) :
    Inv cfg conflict { s with triggers := s.triggers ++ [row] } := by
  have hgood : Good cfg (s.triggers ++ [row]) := by
    refine hinv.good.append (Clashes.nodup_key_concat hinv.good.keys hkey) (fun r hr => ?_)
      (pairwise_singleton _ _) fun r hr => ?_
    · cases mem_singleton.mp hr
      exact hprop
    · cases mem_singleton.mp hr
      exact hcare.1
  refine ⟨hinv.alive, hgood, fun hnot method => ?_, hinv.version, hinv.tables, hinv.wellFormed,
    hinv.ids⟩
  have hinact : row.active = false := Bool.eq_false_iff.mpr fun hact => hnot (hcare.2 hact)
  refine (hinv.current hnot method).trans ?_
  simp [buildRouter, hinact]

lemma Inv.restoreData (hinv : Inv cfg conflict s) (hdata : WellFormed cfg data)
    (hcare : Restorable cfg s item data)
    (h : restoreData s item data = .ok s') : Inv cfg conflict s' := by
  cases data with
  | rows kind main linked =>
    obtain ⟨tables, htabs, rfl⟩ := restoreRows_eq_ok h
    exact inv_setTables hinv (nodup_insertMissing linked ((insertRows_eq_ok htabs).1 hinv.tables))
  | schedule row =>
    cases restoreSchedule_eq_ok h
    refine hinv.rescheduled ⟨⟨rfl, rfl, rfl, rfl, rfl, rfl⟩, fun halive => ?_⟩
    refine alive_of_aliveBut (aliveBut_setSchedule halive _) fun schedule hsched hen => ?_
    rw [setSchedule_self] at hsched
    cases hsched
    exact hcare hen
  | httpTrigger row =>
    obtain ⟨hkey, rfl⟩ := restoreTrigger_eq_ok h
    exact inv_restoreTrigger hinv hdata hcare hkey

lemma putBack_restoreData (hdata : WellFormed cfg data) (h : restoreData s item data = .ok s') :
    PutBack s s' item data := by
  cases data with
  | rows kind main linked =>
    obtain ⟨tables, htabs, rfl⟩ := restoreRows_eq_ok h
    obtain ⟨-, hmem, hother⟩ := insertRows_eq_ok htabs
    intro table r
    have hin := @mem_insertMissing D linked tables hdata.2 table r
    rw [hmem, or_assoc] at hin
    refine hin.trans (or_congr_right (or_congr_right (and_congr_right fun hlinked => ?_)))
    unfold taken
    rw [hother table (hdata.1 _ hlinked)]
  | schedule row =>
    cases restoreSchedule_eq_ok h
    rfl
  | httpTrigger row =>
    obtain ⟨-, rfl⟩ := restoreTrigger_eq_ok h
    rfl

lemma trash_restoreData (h : restoreData s item data = .ok s') :
    s'.trash = s.trash ∧ s'.nextId = s.nextId := by
  cases data with
  | rows kind main linked =>
    obtain ⟨tables, -, rfl⟩ := restoreRows_eq_ok h
    exact ⟨rfl, rfl⟩
  | schedule row =>
    cases restoreSchedule_eq_ok h
    exact ⟨rfl, rfl⟩
  | httpTrigger row =>
    obtain ⟨-, rfl⟩ := restoreTrigger_eq_ok h
    exact ⟨rfl, rfl⟩

variable {authed : User} {wId : WorkspaceId} {id : ℕ}

lemma restoreTrashItem_eq_ok (h : restoreTrashItem s authed wId id = .ok s') :
    ∃ found ∈ s.trash, found.item.1 = wId ∧ found.id = id ∧ ∃ restored,
      restoreData s found.item found.data = .ok restored ∧
        s' = { restored with trash := restored.trash.filter fun other => other.id ≠ found.id } := by
  unfold restoreTrashItem at h
  split_ifs at h
  obtain ⟨found, hfound, h⟩ := Except.bind_eq_ok.mp h
  obtain ⟨restored, hback, h⟩ := Except.bind_eq_ok.mp h
  cases h
  unfold getTrashItem at hfound
  split at hfound
  · case _ _ hfind =>
    cases hfound
    have hfits := find?_some hfind
    have hprop := of_decide_eq_true hfits
    exact ⟨found, mem_of_find?_eq_some hfind, hprop.1, hprop.2, restored, hback, rfl⟩
  · cases hfound

lemma inv_filterTrash (hinv : Inv cfg conflict s) (keep : TrashItem D → Bool) :
    Inv cfg conflict { s with trash := s.trash.filter keep } :=
  ⟨hinv.alive, hinv.good, hinv.current, hinv.version, hinv.tables,
    fun found hfound => hinv.wellFormed found (mem_of_mem_filter hfound),
    fun found hfound => hinv.ids found (mem_of_mem_filter hfound)⟩

end Restores

/-! ### Runs -/

/-- The requests about triggers do not depend on checks that are not made, and what is restored is
restorable. -/
def Careful (cfg : Settings) (s : Store D) : Action D → Prop
  | .trigger request => Clashes.Careful cfg s.triggers request
  | .restore _ wId id => ∀ found ∈ s.trash, found.item.1 = wId → found.id = id →
      Restorable cfg s found.item found.data
  | _ => True

section Runs

variable {s' : Store D} {a : Action D}

lemma toOption_eq_some {x : Except Error (Store D)} (h : x.toOption = some s') : x = .ok s' := by
  cases x with
  | error error => cases h
  | ok value =>
    cases h
    rfl

/-- **A request keeps the invariant.** -/
theorem inv_request (hinv : Inv cfg conflict s) (hcare : Careful cfg s a)
    (h : request cfg conflict links s a = some s') : Inv cfg conflict s' := by
  cases a with
  | createSchedule w key ns => exact hinv.rescheduled (createSchedule_eq_ok (toOption_eq_some h))
  | editSchedule w key es => exact hinv.rescheduled (editSchedule_eq_ok (toOption_eq_some h))
  | setEnabled w key enabled => exact hinv.rescheduled (setEnabled_eq_ok (toOption_eq_some h))
  | deleteSchedule key => exact hinv.deleteSchedule (toOption_eq_some h)
  | trigger request => exact hinv.triggerRequest hcare (toOption_eq_some h)
  | refresh =>
    cases h
    exact hinv.refreshRouters
  | change tables =>
    dsimp only [request] at h
    split_ifs at h with hkeys
    cases h
    exact inv_setTables hinv fun table => hkeys table (mem_allTables table)
  | deleteItem kind key => exact hinv.deleteItem h
  | restore authed wId id =>
    obtain ⟨found, hfound, hw, hid, restored, hback, rfl⟩ :=
      restoreTrashItem_eq_ok (toOption_eq_some h)
    have hdata := hinv.wellFormed found hfound
    exact inv_filterTrash (hinv.restoreData hdata (hcare found hfound hw hid) hback) _
  | discard gone =>
    cases h
    exact inv_filterTrash hinv _

lemma trash_request (h : request cfg conflict links s a = some s') :
    s.nextId ≤ s'.nextId ∧ ∀ found ∈ s'.trash, found ∈ s.trash ∨ found.id = s.nextId := by
  have hsame : ∀ {t : Store D}, t.trash = s.trash → t.nextId = s.nextId →
      s.nextId ≤ t.nextId ∧ ∀ found ∈ t.trash, found ∈ s.trash ∨ found.id = s.nextId := by
    intro t htrash hnext
    rw [htrash, hnext]
    exact ⟨le_rfl, fun found hfound => .inl hfound⟩
  have hrest : ∀ {t}, SameRest s t → s.nextId ≤ t.nextId ∧ ∀ found ∈ t.trash,
      found ∈ s.trash ∨ found.id = s.nextId :=
    fun h => hsame h.trash h.nextId
  have hmoved : ∀ {t} key data, t.trash = s.trash →
    t.nextId = s.nextId →
      s.nextId ≤ (moveToTrash t key data).nextId ∧
        ∀ found ∈ (moveToTrash t key data).trash, found ∈ s.trash ∨ found.id = s.nextId := by
    intro t key data htrash hnext
    unfold moveToTrash
    rw [htrash, hnext]
    refine ⟨Nat.le_succ _, fun found hfound => (mem_append.mp hfound).imp_right fun hnew => ?_⟩
    rw [mem_singleton.mp hnew]
  cases a with
  | createSchedule w key ns => exact hrest (createSchedule_eq_ok (toOption_eq_some h)).1
  | editSchedule w key es => exact hrest (editSchedule_eq_ok (toOption_eq_some h)).1
  | setEnabled w key enabled => exact hrest (setEnabled_eq_ok (toOption_eq_some h)).1
  | deleteSchedule key =>
    obtain ⟨schedule, -, rfl⟩ := deleteSchedule_eq_ok (toOption_eq_some h)
    exact hmoved _ _ rfl rfl
  | trigger request =>
    obtain ⟨rows, -, rfl | ⟨key, row, -, rfl⟩⟩ := triggerRequest_eq_ok (toOption_eq_some h)
    · exact hsame rfl rfl
    · exact hmoved _ _ rfl rfl
  | refresh =>
    cases h
    unfold refreshRouters
    split_ifs
    · exact hsame rfl rfl
    · exact hsame rfl rfl
  | change tables =>
    dsimp only [request] at h
    split_ifs at h
    cases h
    exact hsame rfl rfl
  | deleteItem kind key =>
    obtain ⟨tables, -, rfl⟩ := deleteItem_eq_some h
    exact hmoved _ _ rfl rfl
  | restore authed wId id =>
    obtain ⟨found, -, -, -, restored, hback, rfl⟩ := restoreTrashItem_eq_ok (toOption_eq_some h)
    obtain ⟨htrash, hnext⟩ := trash_restoreData hback
    refine ⟨hnext.ge, fun other hother => .inl ?_⟩
    rw [← htrash]
    exact mem_of_mem_filter hother
  | discard gone =>
    cases h
    exact ⟨le_rfl, fun found hfound => .inl (mem_of_mem_filter hfound)⟩

/-- What a deletion puts into the trash. -/
def captured (links : Links D) (s : Store D) : Action D → Option (Key × TrashData D)
  | .deleteSchedule key => (s.schedules key).map fun row => (key, .schedule row)
  | .trigger (.delete authed wId path) =>
    (capturedTrigger s authed (wId, path)).map fun row => ((wId, path), .httpTrigger row)
  | .deleteItem kind key =>
    some (key, .rows kind (mainRows s kind key) (linkedRows links s kind key))
  | _ => none

lemma request_captured (hcap : captured links s a = some (key, data))
    (h : request cfg conflict links s a = some s') :
    s'.trash = s.trash ++ [⟨s.nextId, key, data⟩] ∧ s'.nextId = s.nextId + 1 := by
  unfold captured at hcap
  split at hcap
  · obtain ⟨schedule, hsched, heq⟩ := Option.map_eq_some_iff.mp hcap
    cases heq
    obtain ⟨schedule', hsched', rfl⟩ := deleteSchedule_eq_ok (toOption_eq_some h)
    cases hsched.symm.trans hsched'
    exact ⟨rfl, rfl⟩
  · case _ authed wId path =>
    obtain ⟨row, hrow, heq⟩ := Option.map_eq_some_iff.mp hcap
    cases heq
    have hok := toOption_eq_some h
    unfold triggerRequest at hok
    dsimp only at hok
    rw [hrow] at hok
    split at hok
    · cases hok
    · cases hok
      exact ⟨rfl, rfl⟩
  · cases hcap
    obtain ⟨tables, -, rfl⟩ := deleteItem_eq_some h
    exact ⟨rfl, rfl⟩
  · cases hcap

lemma careful_of_captured {x} (h : captured links s a = some x) : Careful cfg s a := by
  unfold captured at h
  split at h
  · trivial
  · trivial
  · trivial
  · cases h

lemma step_eq_some (h : step cfg conflict links s a = some s') :
    s' = s ∨ request cfg conflict links s a = some s' := by
  unfold Items.step at h
  cases hreq : request cfg conflict links s a with
  | none =>
    rw [hreq] at h
    cases h
    exact .inl rfl
  | some t =>
    rw [hreq] at h
    exact .inr h

/-- The item with this number, as long as it is in the trash. -/
structure Holds (id : ℕ) (key : Key) (data : TrashData D) (s : Store D) : Prop where
  old : id < s.nextId
  same : ∀ found ∈ s.trash, found.id = id → found.item = key ∧ found.data = data

lemma Holds.step {id : ℕ} (h : Holds id key data s)
    (hstep : step cfg conflict links s a = some s') : Holds id key data s' := by
  rcases step_eq_some hstep with rfl | hreq
  · exact h
  · obtain ⟨hnext, htrash⟩ := trash_request hreq
    refine ⟨h.old.trans_le hnext, fun found hfound hid => ?_⟩
    rcases htrash found hfound with hold | hnew
    · exact h.same found hold hid
    · exact absurd (hid.symm.trans hnew) h.old.ne

lemma inv_step (hinv : Inv cfg conflict s) (hcare : Careful cfg s a)
    (hstep : step cfg conflict links s a = some s') : Inv cfg conflict s' := by
  rcases step_eq_some hstep with rfl | hreq
  · exact hinv
  · exact inv_request hinv hcare hreq

lemma holds_of_captured (h : Stored cfg s) (hcap : captured links s a = some (key, data))
    (hreq : request cfg conflict links s a = some s') : Holds s.nextId key data s' := by
  obtain ⟨htrash, hnext⟩ := request_captured hcap hreq
  refine ⟨hnext ▸ Nat.lt_succ_self _, fun found hfound hid => ?_⟩
  rw [htrash] at hfound
  rcases mem_append.mp hfound with hold | hnew
  · exact absurd hid (h.ids found hold).ne
  · cases mem_singleton.mp hnew
    exact ⟨rfl, rfl⟩

end Runs

/-- **An item that is deleted and restored is back, and what held before holds again**, whatever is
requested in between, if no request depends on what restoring does not do. -/
theorem restored_item_revives {s₀ s₁ s₂ s₃ : Store D} {a : Action D} {key : Key}
    {data : TrashData D} {during : List (Action D)} {authed : User} (hstored : Stored cfg s₀)
    (hsound : Sound cfg conflict s₀) (hcaptured : captured links s₀ a = some (key, data))
    (hdelete : request cfg conflict links s₀ a = some s₁)
    (hduring : Meets (step cfg conflict links) (Careful cfg) during s₁)
    (hrun : run (step cfg conflict links) during s₁ = some s₂)
    (hcareful : Careful cfg s₂ (.restore authed key.1 s₀.nextId))
    (hrestore : restoreTrashItem s₂ authed key.1 s₀.nextId = .ok s₃) :
    PutBack s₂ s₃ key data ∧ Sound cfg conflict s₃ := by
  have hinv₁ : Inv cfg conflict s₁ :=
    inv_request (inv_of_sound hstored hsound) (careful_of_captured hcaptured) hdelete
  have hinv₂ : Inv cfg conflict s₂ :=
    run_invariant (fun hI hC hs => inv_step hI hC hs) hinv₁ hduring hrun
  have hholds : Holds s₀.nextId key data s₂ :=
    run_preserves (fun hI hs => Holds.step hI hs) (holds_of_captured hstored hcaptured hdelete) hrun
  obtain ⟨found, hfound, hw, hid, restored, hrestored, rfl⟩ := restoreTrashItem_eq_ok hrestore
  have hwell := hinv₂.wellFormed found hfound
  have hfit := hcareful found hfound hw hid
  obtain ⟨hkey, hdata⟩ := hholds.same found hfound hid
  rw [hkey, hdata] at hrestored hfit
  rw [hdata] at hwell
  refine ⟨?_, (inv_filterTrash (hinv₂.restoreData hwell hfit hrestored) _).sound⟩
  have hback := putBack_restoreData hwell hrestored
  cases data with
  | rows kind main linked | schedule row | httpTrigger row => exact hback

/-! ### Instances -/

open Trigger.Clashes (ownServer workspaceA admin trigger)

def emptyStore : Store Unit where
  schedules _ := none
  queue := []
  triggers := []
  lastValue := 1
  cache := ⟨fun _ => none, 0⟩
  tables _ := []
  trash := []
  nextId := 0

lemma inv_emptyStore : Inv ownServer conflict emptyStore where
  alive key schedule h := by cases h
  good := Clashes.good_nil
  current hnot := absurd (.inl rfl) hnot
  version := Nat.zero_le 1
  tables _ := nodup_nil
  wellFormed _ h := absurd h not_mem_nil
  ids _ h := absurd h not_mem_nil

def noLinks : Links Unit := fun _ _ _ _ => false

def everyMinute : Cron := ⟨fun t => t + 60, fun t => by omega⟩

def anAdmin : User := ⟨true, "admin"⟩

def sameKey (path path' : List Char) : Bool := decide (Clashes.renamed path = Clashes.renamed path')

abbrev requestStep : Store Unit → Action Unit → Option (Store Unit) :=
  step ownServer sameKey noLinks

def createUsers : List (Action Unit) :=
  [.trigger (.create admin workspaceA (trigger "f/x/users" "users/:id" .get none)), .refresh]

def deleteUsers : Action Unit := .trigger (.delete admin workspaceA "f/x/users")

def createPeople : List (Action Unit) :=
  [.trigger (.create admin workspaceA (trigger "f/x/people" "people/:id" .get none))]

def createRoute : List (Action Unit) :=
  [.trigger (.create admin workspaceA (trigger "f/x/people" "users/:name" .get none))]

lemma inv_run {actions s} (hcare : Meets requestStep (Careful ownServer) actions emptyStore)
    (h : run requestStep actions emptyStore = some s) : Inv ownServer sameKey s :=
  run_invariant (fun hI hC hs => inv_step hI hC hs) inv_emptyStore hcare h

lemma careful_createUsers : Meets requestStep (Careful ownServer) createUsers emptyStore :=
  ⟨trivial, fun _ _ => ⟨trivial, fun _ _ => trivial⟩⟩

theorem users_restored : ∃ s₀ s₁ s₂ s₃, run requestStep createUsers emptyStore = some s₀ ∧
    request ownServer sameKey noLinks s₀ deleteUsers = some s₁ ∧ run requestStep createPeople s₁ =
    some s₂ ∧ restoreTrashItem s₂ anAdmin workspaceA 0 = .ok s₃ ∧ s₃.triggers.length = 2 ∧
    Sound ownServer sameKey s₃ := by
  have hinv := inv_run careful_createUsers rfl
  refine ⟨_, _, _, _, rfl, rfl, rfl, rfl, rfl, ?_⟩
  refine (@restored_item_revives Unit ownServer sameKey noLinks _ _ _ _ deleteUsers _ _
    createPeople anAdmin hinv.stored hinv.sound rfl rfl ⟨trivial, fun _ _ => trivial⟩ rfl ?_ rfl).2
  intro found hfound _ _
  cases mem_singleton.mp hfound
  refine ⟨fun other hother => ?_, fun _ => .inr (by decide)⟩
  cases mem_singleton.mp hother
  decide

def minutely : Action Unit :=
  .createSchedule ⟨0, none⟩ (workspaceA, "f/x/minutely") ⟨some true, "f/x/script", everyMinute,
    none, ()⟩

/-- An enabled schedule is restored without a job; a trigger is restored although its route was
taken meanwhile; and a trigger that was restored after a refresh is not served by the next one. -/
theorem restored_items_dead :
    (∃ s₀ s₁ s₂, run requestStep [minutely] emptyStore = some s₀ ∧ Sound ownServer sameKey s₀ ∧
      request ownServer sameKey noLinks s₀ (.deleteSchedule (workspaceA, "f/x/minutely")) =
      some s₁ ∧ restoreTrashItem s₁ anAdmin workspaceA 0 = .ok s₂ ∧ ¬Alive s₂) ∧
    (∃ s₀ s₁ s₂ s₃, run requestStep createUsers emptyStore = some s₀ ∧ Sound ownServer sameKey s₀ ∧
      request ownServer sameKey noLinks s₀ deleteUsers = some s₁ ∧ run requestStep createRoute s₁ =
      some s₂ ∧
      restoreTrashItem s₂ anAdmin workspaceA 0 = .ok s₃ ∧ ¬NoClash ownServer s₃.triggers) ∧
    ∃ s₀ s₁ s₂ s₃, run requestStep createUsers emptyStore = some s₀ ∧ Sound ownServer sameKey s₀ ∧
      request ownServer sameKey noLinks s₀ deleteUsers = some s₁ ∧ run requestStep
      [.refresh] s₁ = some s₂ ∧
      restoreTrashItem s₂ anAdmin workspaceA 0 = .ok s₃ ∧ ¬Served ownServer sameKey s₃ := by
  have hinv := inv_run careful_createUsers rfl
  have hmin : Meets requestStep (Careful ownServer) [minutely] emptyStore :=
    ⟨trivial, fun _ _ => trivial⟩
  refine ⟨⟨_, _, _, rfl, (inv_run hmin rfl).sound, rfl, rfl, fun halive => ?_⟩,
    ⟨_, _, _, _, rfl, hinv.sound, rfl, rfl, rfl, fun hclash => ?_⟩,
    _, _, _, _, rfl, hinv.sound, rfl, rfl, rfl, fun hserv => ?_⟩
  · obtain ⟨job, hjob, -⟩ := halive (workspaceA, "f/x/minutely") _ rfl rfl
    exact absurd hjob not_mem_nil
  · exact (pairwise_cons.mp hclash).1 _ (mem_singleton_self _) rfl (by decide)
  · have hrouters := congrArg (Option.map length) (hserv .get)
    exact absurd hrouters (by decide)

end Windmill.Trash.Restore
