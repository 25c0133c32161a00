import Windmill.Lib.Except
import Windmill.Lib.Run
import Windmill.Trigger.Routes

/-! # Routes that clash

Two full paths clash if they become equal when their parameters and wildcards are renamed. The
requests compare keys instead (`fullKey`), which is the same for routes that passed the validation
(`renamed_fullPath_eq_iff`). A route that passes the check clashes with no stored one, except that
an update does not look at the triggers of other workspaces that have the same path
(`fullKey_ne_of_check`). -/

namespace Windmill.Trigger.Clashes

open Lib.Except Lib.Run Routes List

variable {D : Type} {cfg : Settings} {wId : WorkspaceId} {authed : Authed D} {rows : List (Row D)}
  {config : HttpConfigRequest} {edit : Row D → Row D} {routePath names : List Char}

/-! ### Segments -/

def renameSegment : List Char → List Char
  | ':' :: _ => ":key".toList
  | '*' :: _ => "*key".toList
  | segment => segment

def renamed (path : List Char) : List (List Char) := (segments path).map renameSegment

def joined : List (List Char) → List Char
  | [] => []
  | [segment] => segment
  | segment :: others => segment ++ '/' :: joined others

lemma segments_eq_splitOn : ∀ text, segments text = text.splitOn '/'
  | [] => rfl
  | c :: rest => by
    rw [segments, segments_eq_splitOn rest, splitOn_cons_eq_if_modifyHead]
    simp only [beq_iff_eq]
    split_ifs
    · rfl
    · cases hrest : rest.splitOn '/' with
      | nil => exact absurd hrest (splitOn_ne_nil _ _)
      | cons segment others => rfl

lemma joined_eq_intercalate : ∀ segs, joined segs = ['/'].intercalate segs
  | [] => rfl
  | [segment] => (append_nil segment).symm
  | segment :: s :: others => congrArg (segment ++ '/' :: ·) (joined_eq_intercalate (s :: others))

variable {segment : List Char} {row row' : Row D} {key : WorkspaceId × String} {request : Request D}
  {router : Router D} {route : List Char × Row D}

lemma segments_append (rest : List Char) (h : '/' ∉ segment) :
    segments (segment ++ '/' :: rest) = segment :: segments rest := by
  rw [segments_eq_splitOn, splitOn_append_cons_self_of_not_mem h, segments_eq_splitOn]

lemma joined_segments (text : List Char) : joined (segments text) = text := by
  rw [joined_eq_intercalate, segments_eq_splitOn]
  exact intercalate_splitOn '/'

variable {text tail : List Char}

lemma segments_injective {text'} (h : segments text = segments text') : text = text' := by
  rw [← joined_segments text, h, joined_segments]

lemma slash_notMem_segments (text : List Char) : ∀ s ∈ segments text, '/' ∉ s := by
  by_cases h : '/' ∈ text
  · obtain ⟨segment, rest, htext, hseg⟩ := eq_append_cons_of_mem h
    rw [htext, segments_append rest hseg]
    exact forall_mem_cons.mpr ⟨hseg, slash_notMem_segments rest⟩
  · rw [segments_eq_splitOn, splitOn_eq_singleton h]
    exact forall_mem_singleton.mpr h
termination_by text.length
decreasing_by
  rw [htext, length_append, length_cons]
  omega

lemma trimMatches_eq (h : ∀ s ∈ segments text, s ≠ []) : trimMatches text = text := by
  have hstart : text.dropWhile (· == '/') = text := by
    cases text with
    | nil => rfl
    | cons c rest =>
      have hc : ¬(c == '/') = true := by
        intro hc
        rw [beq_iff_eq.mp hc] at h
        exact h [] mem_cons_self rfl
      exact dropWhile_cons_of_neg hc
  have hend : text.reverse.dropWhile (· == '/') = text.reverse := by
    rcases eq_nil_or_concat text with rfl | ⟨init, c, rfl⟩
    · rfl
    have hc : ¬(c == '/') = true := by
      intro hc
      rw [concat_eq_append, beq_iff_eq.mp hc, segments_eq_splitOn, splitOn_append_cons_self] at h
      exact h [] (mem_append_right _ mem_cons_self) rfl
    rw [concat_eq_append, reverse_append, reverse_singleton, singleton_append]
    exact dropWhile_cons_of_neg hc
  unfold trimMatches
  rw [hstart, hend, reverse_reverse]

/-! ### Keys of valid routes -/

lemma replaceNames_names (tail : List Char) (h : ∀ c ∈ names, cfg.name c = true) :
    replaceNames cfg.name (names ++ tail) 0 = names ++ replaceNames cfg.name tail 0 := by
  induction names with
  | nil => rfl
  | cons c names ih =>
    have hc := cfg.name_proper c (h c mem_cons_self)
    have hno : ¬((c = ':' ∨ c = '*') ∧ (names ++ tail).head?.any cfg.name = true) :=
      fun hand => hand.1.elim hc.2.1 hc.2.2
    rw [cons_append, replaceNames, if_neg hno, ih fun d hd => h d (mem_cons_of_mem c hd),
      cons_append]

lemma replaceNames_skip (name : Char → Bool) (tail : List Char) : ∀ names,
    replaceNames name (names ++ tail) names.length = replaceNames name tail 0
  | [] => rfl
  | _ :: names => replaceNames_skip name tail names

lemma isName_iff : isName cfg segment = true ↔ segment ≠ [] ∧ ∀ c ∈ segment, cfg.name c = true := by
  unfold isName
  rw [Bool.and_eq_true, decide_eq_true_eq, all_eq_true]

lemma replaceNames_marked {marker : Char} (hmark : marker = ':' ∨ marker = '*')
    (hnames : isName cfg names = true) (htail : tail = [] ∨ tail.head? = some '/') :
    replaceNames cfg.name (marker :: (names ++ tail)) 0 =
    marker :: ("key".toList ++ replaceNames cfg.name tail 0) := by
  obtain ⟨hne, hall⟩ := isName_iff.mp hnames
  have hhead : (names ++ tail).head?.any cfg.name = true := by
    cases names with
    | nil => exact absurd rfl hne
    | cons c names => exact hall c mem_cons_self
  have hstop : tail.takeWhile cfg.name = [] := by
    rcases htail with rfl | htail
    · rfl
    · cases tail with
      | nil => rfl
      | cons c tail =>
        cases htail
        exact takeWhile_cons_of_neg fun hsl => (cfg.name_proper '/' hsl).1 rfl
  have htake : (names ++ tail).takeWhile cfg.name = names := by
    rw [takeWhile_append_of_pos hall, hstop, append_nil]
  rw [replaceNames, if_pos ⟨hmark, hhead⟩, htake, replaceNames_skip]
  rfl

def ValidSegment (cfg : Settings) (segment : List Char) : Prop :=
  isWildcard cfg segment = true ∨ isPart cfg segment = true

lemma ValidSegment.cases (h : ValidSegment cfg segment) :
    (∃ marker names, (marker = ':' ∨ marker = '*') ∧ isName cfg names = true ∧
      segment = marker :: names) ∨ isName cfg segment = true := by
  rcases h with h | h
  · unfold isWildcard at h
    split at h
    · exact .inl ⟨'*', _, .inr rfl, h, rfl⟩
    · cases h
  · unfold isPart at h
    split at h
    · exact .inl ⟨':', _, .inl rfl, h, rfl⟩
    · exact .inr h

lemma renameSegment_name (h : isName cfg segment = true) : renameSegment segment = segment := by
  obtain ⟨-, hall⟩ := isName_iff.mp h
  unfold renameSegment
  split
  · exact absurd rfl (cfg.name_proper ':' (hall ':' mem_cons_self)).2.1
  · exact absurd rfl (cfg.name_proper '*' (hall '*' mem_cons_self)).2.2
  · rfl

lemma replaceNames_segment (h : ValidSegment cfg segment)
    (htail : tail = [] ∨ tail.head? = some '/') :
    replaceNames cfg.name (segment ++ tail) 0 = renameSegment segment ++
    replaceNames cfg.name tail 0 := by
  rcases h.cases with ⟨marker, names, hmark, hnames, rfl⟩ | hname
  · rw [cons_append, replaceNames_marked hmark hnames htail]
    rcases hmark with rfl | rfl <;> rfl
  · rw [renameSegment_name hname, replaceNames_names tail (isName_iff.mp hname).2]

lemma replaceNames_joined : ∀ {segs}, (∀ s ∈ segs, ValidSegment cfg s) →
    replaceNames cfg.name (joined segs) 0 = joined (segs.map renameSegment)
  | [], _ => rfl
  | [segment], h => by
    have hseg := replaceNames_segment (h segment mem_cons_self) (.inl rfl)
    rwa [append_nil, replaceNames, append_nil] at hseg
  | segment :: s :: others, h => by
    have ih := replaceNames_joined fun t ht => h t (mem_cons_of_mem segment ht)
    have hsl : replaceNames cfg.name ('/' :: joined (s :: others)) 0
        = '/' :: replaceNames cfg.name (joined (s :: others)) 0 := by
      rw [replaceNames, if_neg]
      rintro ⟨hmark | hmark, -⟩ <;> cases hmark
    show replaceNames cfg.name (segment ++ '/' :: joined (s :: others)) 0 = _
    rw [replaceNames_segment (h segment mem_cons_self) (.inr rfl), hsl, ih]
    rfl

lemma validSegments_forall : ∀ {segs}, validSegments cfg segs = true →
    ∀ s ∈ segs, ValidSegment cfg s
  | [], h, _, _ => by cases h
  | [segment], h, s, hs => by
    cases mem_singleton.mp hs
    exact Bool.or_eq_true_iff.mp h
  | segment :: t :: others, h, s, hs => by
    have hand : isPart cfg segment = true ∧ validSegments cfg (t :: others) = true :=
      (Bool.and_eq_true _ _).mp h
    rcases mem_cons.mp hs with rfl | hs
    · exact .inr hand.1
    · exact validSegments_forall hand.2 s hs

/-- **The key of a valid route** has its segments renamed. -/
theorem segments_generateRoutePathKey (h : validRoutePath cfg routePath = true) :
    segments (generateRoutePathKey cfg routePath) = renamed routePath := by
  have hvalid := validSegments_forall h
  have hkey : generateRoutePathKey cfg routePath = joined (renamed routePath) := by
    rw [renamed, ← replaceNames_joined hvalid, joined_segments]
    rfl
  have hne : renamed routePath ≠ [] := by
    rw [renamed, segments_eq_splitOn]
    exact mt map_eq_nil_iff.mp (splitOn_ne_nil _ _)
  rw [hkey, segments_eq_splitOn, joined_eq_intercalate]
  refine splitOn_intercalate '/' (fun s hs => ?_) hne
  obtain ⟨t, ht, rfl⟩ := mem_map.mp hs
  have hsl := slash_notMem_segments routePath t ht
  unfold renameSegment
  split
  · decide
  · decide
  · exact hsl

lemma trimMatches_generateRoutePathKey (h : validRoutePath cfg routePath = true) :
    trimMatches (generateRoutePathKey cfg routePath) = generateRoutePathKey cfg routePath := by
  refine trimMatches_eq fun s hs hnil => ?_
  rw [segments_generateRoutePathKey h] at hs
  obtain ⟨t, ht, rfl⟩ := mem_map.mp hs
  rcases (validSegments_forall h t ht).cases with ⟨marker, names, rfl | rfl, -, rfl⟩ | hname
  · cases hnil
  · cases hnil
  · rw [renameSegment_name hname] at hnil
    exact (isName_iff.mp hname).1 hnil

/-! ### Full keys -/

def fullKey (cfg : Settings) (row : Row D) : List Char :=
  if row.prefixed cfg then row.workspaceId.text ++ '/' :: row.routePathKey else row.routePathKey

structure Proper (cfg : Settings) (row : Row D) : Prop where
  valid : validRoutePath cfg row.routePath = true
  key : row.routePathKey = generateRoutePathKey cfg row.routePath
  workspaced : cfg.routeWorkspaced = true → row.workspacedRoute = true

lemma slash_notMem_workspaceId (w : WorkspaceId) : '/' ∉ w.text := fun h => (w.proper '/' h).1 rfl

lemma renameSegment_workspaceId (w : WorkspaceId) : renameSegment w.text = w.text := by
  have hprop := w.proper
  unfold renameSegment
  split
  · case _ heq => exact absurd rfl (hprop ':' (heq ▸ mem_cons_self)).2.1
  · case _ heq => exact absurd rfl (hprop '*' (heq ▸ mem_cons_self)).2.2
  · rfl

lemma renamed_fullPath (h : Proper cfg row) : renamed (fullPath cfg row) = [] :: segments
    (fullKey cfg row) := by
  have hkey : segments row.routePathKey = renamed row.routePath := by
    rw [h.key, segments_generateRoutePathKey h.valid]
  unfold fullPath fullKey
  split_ifs
  · rw [segments_append _ (slash_notMem_workspaceId row.workspaceId), hkey]
    unfold renamed
    rw [segments, if_pos rfl, segments_append _ (slash_notMem_workspaceId row.workspaceId),
      map_cons, map_cons, renameSegment_workspaceId]
    rfl
  · rw [hkey]
    rfl

lemma renamed_fullPath_eq_iff (h : Proper cfg row) (h' : Proper cfg row') :
    renamed (fullPath cfg row) = renamed (fullPath cfg row') ↔
    fullKey cfg row = fullKey cfg row' := by
  rw [renamed_fullPath h, renamed_fullPath h']
  exact ⟨fun heq => segments_injective (cons.inj heq).2, fun heq => by rw [heq]⟩

lemma workspaceId_append_inj {w w' : WorkspaceId} {key key' : List Char}
    (h : w.text ++ '/' :: key = w'.text ++ '/' :: key') : w = w' ∧ key = key' := by
  have hsegs := congrArg segments h
  rw [segments_append _ (slash_notMem_workspaceId w),
    segments_append _ (slash_notMem_workspaceId w')] at hsegs
  obtain ⟨htext, hkey⟩ := cons.inj hsegs
  cases w'
  cases htext
  exact ⟨rfl, segments_injective hkey⟩

def Apart (cfg : Settings) (row row' : Row D) : Prop :=
  row.httpMethod = row'.httpMethod → fullKey cfg row ≠ fullKey cfg row'

lemma Apart.symm (h : Apart cfg row row') : Apart cfg row' row :=
  fun hmeth heq => h hmeth.symm heq.symm

instance symmApart : Std.Symm (Apart cfg : Row D → Row D → Prop) := ⟨fun _ _ h => h.symm⟩

lemma Proper.prefixed (hprop : Proper cfg row) (h : cfg.cloudHosted = false) :
    row.prefixed cfg = row.workspacedRoute := by
  have hws := hprop.workspaced
  cases hset : cfg.routeWorkspaced with
  | false => simp [Row.prefixed, h, hset]
  | true => simp [Row.prefixed, hset, hws hset]

/-- **What a check tells**: the route is apart from each stored trigger, except perhaps those with
the path that is left out. -/
theorem fullKey_ne_of_check {trigger : TriggerData D}
    {triggerPath : Option String} (hvalid : validRoutePath cfg trigger.config.routePath = true)
    (hchk : checkIfRouteExist cfg rows trigger.config wId triggerPath = .ok ()) (hrow : row ∈ rows)
    (hprop : Proper cfg row) (hpath : some row.path = triggerPath → row.workspaceId ≠ wId ∧
      (cfg.cloudHosted = false →
      Apart cfg (newRow cfg wId trigger) row)) : Apart cfg (newRow cfg wId trigger) row := by
  intro hmeth heq
  have hex : routePathKeyExists cfg rows (generateRoutePathKey cfg trigger.config.routePath)
    trigger.config wId
      triggerPath = false := by
    unfold checkIfRouteExist at hchk
    split_ifs at hchk with hex
    exact Bool.eq_false_iff.mpr hex
  unfold routePathKeyExists at hex
  by_cases hcloud : cfg.cloudHosted = true
  · -- in the cloud every full path has the workspace in front
    rw [if_pos hcloud] at hex
    have hnew : (newRow cfg wId trigger).prefixed cfg = true := by simp [Row.prefixed, hcloud]
    have hold : row.prefixed cfg = true := by simp [Row.prefixed, hcloud]
    unfold fullKey at heq
    rw [if_pos hnew, if_pos hold] at heq
    obtain ⟨hw, hkey⟩ := workspaceId_append_inj heq
    refine any_eq_false.mp hex row hrow (decide_eq_true ⟨hkey.symm, hw.symm, hmeth.symm, ?_⟩)
    by_cases htp : some row.path = triggerPath
    · exact absurd hw.symm (hpath htp).1
    · exact .inr htp
  · rw [if_neg hcloud] at hex
    have hcloud' : cfg.cloudHosted = false := Bool.eq_false_iff.mpr hcloud
    by_cases htp : some row.path = triggerPath
    · exact (hpath htp).2 hcloud' hmeth heq
    refine any_eq_false.mp hex row hrow (decide_eq_true ⟨?_, hmeth.symm, .inr htp⟩)
    unfold fullKey at heq
    rw [show (newRow cfg wId trigger).prefixed cfg = effectiveWorkspaced cfg trigger.config by
      simp [Row.prefixed, newRow, effectiveWorkspaced, hcloud'], hprop.prefixed hcloud'] at heq
    rw [trimMatches_generateRoutePathKey hvalid]
    exact heq.symm

/-! ### Requests -/

/-- **No two stored triggers of one method clash.** -/
def NoClash (cfg : Settings) (rows : List (Row D)) : Prop :=
  rows.Pairwise fun row row' => row.httpMethod = row'.httpMethod →
    renamed (fullPath cfg row) ≠ renamed (fullPath cfg row')

structure Good (cfg : Settings) (rows : List (Row D)) : Prop where
  keys : (rows.map Row.key).Nodup
  proper : ∀ row ∈ rows, Proper cfg row
  apart : rows.Pairwise (Apart cfg)

/-- The request does not depend on a check that is not made: no two routes of a batch clash, an
update does not take the route of a trigger with the same path in another workspace, and one that
keeps the route keeps the method. -/
def Careful (cfg : Settings) (rows : List (Row D)) : Request D → Prop
  | .createMany _ wId triggers => (triggers.map (newRow cfg wId)).Pairwise (Apart cfg)
  | .update authed wId path trigger =>
    if authed.isAdmin || effectiveWorkspaced cfg trigger.config then
      ∀ row ∈ rows, row.path = path → row.workspaceId ≠ wId → Apart cfg (newRow cfg wId trigger) row
    else ∀ row ∈ rows, row.key = (wId, path) → row.httpMethod = trigger.config.httpMethod
  | _ => True

instance decidableApart (row row' : Row D) : Decidable (Apart cfg row row') :=
  inferInstanceAs (Decidable (row.httpMethod = row'.httpMethod →
    fullKey cfg row ≠ fullKey cfg row'))

instance decidableCareful (rows : List (Row D)) (request : Request D) :
    Decidable (Careful cfg rows request) := by
  cases request <;> unfold Careful <;> infer_instance

section Good

variable {rows' : List (Row D)}

lemma Good.noClash (h : Good cfg rows) : NoClash cfg rows :=
  h.apart.imp_of_mem fun hrow hrow' hapart hmeth heq =>
    hapart hmeth ((renamed_fullPath_eq_iff (h.proper _ hrow) (h.proper _ hrow')).mp heq)

lemma Good.apart_of_key_ne (h : Good cfg rows) (hrow : row ∈ rows) (hrow' : row' ∈ rows)
    (hne : row.key ≠ row'.key) : Apart cfg row row' :=
  h.apart.forall hrow hrow' fun heq => hne (congrArg Row.key heq)

lemma good_nil : Good cfg ([] : List (Row D)) := ⟨nodup_nil, fun _ h => absurd h not_mem_nil, .nil⟩

lemma Good.append (h : Good cfg rows) {news} (hkeys : ((rows ++ news).map Row.key).Nodup)
    (hprop : ∀ row ∈ news, Proper cfg row) (hnews : news.Pairwise (Apart cfg))
    (hapart : ∀ row ∈ news, ∀ row' ∈ rows, Apart cfg row row') : Good cfg (rows ++ news) := by
  refine ⟨hkeys, fun row hrow => ?_,
    pairwise_append.mpr ⟨h.apart, hnews, fun row' hrow' row hrow => ?_⟩⟩
  · rcases mem_append.mp hrow with hrow | hrow
    · exact h.proper row hrow
    · exact hprop row hrow
  · exact (hapart row hrow row' hrow').symm

lemma Good.updateRows (h : Good cfg rows)
    (hkeys : ((updateRows authed key edit rows).map Row.key).Nodup)
    (hprop : ∀ row ∈ rows, row.key = key → Proper cfg (edit row))
    (hapart : ∀ row ∈ rows, row.key = key → ∀ row' ∈ rows, row'.key ≠ key →
      Apart cfg (edit row) row') : Good cfg (updateRows authed key edit rows) := by
  refine ⟨hkeys, fun row hrow => ?_, ?_⟩
  · obtain ⟨old, hold, rfl⟩ := mem_map.mp hrow
    split_ifs with hkey
    · exact hprop old hold hkey.1
    · exact h.proper old hold
  · have hpairs := (pairwise_map.mp h.keys).and h.apart
    refine pairwise_map.mpr (hpairs.imp_of_mem fun {row row'} hrow hrow' hpair => ?_)
    split_ifs with hkey hkey' hkey'
    · exact absurd (hkey.1.trans hkey'.1.symm) hpair.1
    · exact hapart row hrow hkey.1 row' hrow' fun heq => hpair.1 (hkey.1.trans heq.symm)
    · exact (hapart row' hrow' hkey'.1 row hrow fun heq => hpair.1 (heq.trans hkey'.1.symm)).symm
    · exact hpair.2

lemma map_key_updateRows (hedit : ∀ row, (edit row).key = row.key) :
    (updateRows authed key edit rows).map Row.key = rows.map Row.key := by
  unfold Routes.updateRows
  rw [map_map]
  refine map_congr_left fun row _ => ?_
  rw [Function.comp_apply]
  split_ifs
  · exact hedit row
  · rfl

lemma Good.deleteRows (h : Good cfg rows) : Good cfg (deleteRows authed key rows) := by
  have hsub : (Routes.deleteRows authed key rows).Sublist rows := filter_sublist
  exact ⟨h.keys.sublist (hsub.map _), fun row hrow => h.proper row (hsub.subset hrow),
    h.apart.sublist hsub⟩

lemma validRoutePath_of_validateNew (h : validateNew cfg config = .ok ()) :
    validRoutePath cfg config.routePath = true := by
  unfold validateNew at h
  split_ifs at h with hcloud hvalid
  simpa using hvalid

variable {trigger : TriggerData D}

lemma proper_newRow (h : validRoutePath cfg trigger.config.routePath = true) :
    Proper cfg (newRow cfg wId trigger) := by
  refine ⟨h, rfl, fun hset => ?_⟩
  simp [newRow, effectiveWorkspaced, hset]

lemma insertNewTriggerIntoDb_eq_ok
    (h : insertNewTriggerIntoDb cfg authed wId rows trigger = .ok rows') :
    (newRow cfg wId trigger).key ∉ rows.map Row.key ∧ rows' = rows ++ [newRow cfg wId trigger] := by
  obtain ⟨_, -, h⟩ := bind_eq_ok.mp h
  unfold insertRow at h
  split_ifs at h with hkey
  cases h
  exact ⟨hkey, rfl⟩

lemma wrapError_eq_ok {α : Type} {x : Except Error α} {a : α} (h : wrapError config x = .ok a) :
    x = .ok a := by
  cases x with
  | error e => cases h
  | ok b => exact h

lemma nodup_key_concat (hkeys : (rows.map Row.key).Nodup) (hrow : row.key ∉ rows.map Row.key) :
    ((rows ++ [row]).map Row.key).Nodup := by
  rw [map_append, map_singleton, ← concat_eq_append]
  exact hkeys.concat hrow

lemma insertAll_eq_ok : ∀ {triggers : List (TriggerData D)}
    {rows rows' : List (Row D)}, insertAll cfg authed wId triggers rows = .ok rows' →
      rows' = rows ++ triggers.map (newRow cfg wId) ∧
      ((rows.map Row.key).Nodup → (rows'.map Row.key).Nodup)
  | [], rows, rows', h => by
    cases h
    exact ⟨(append_nil _).symm, id⟩
  | trigger :: triggers, rows, rows', h => by
    obtain ⟨rows₁, hins, h⟩ := bind_eq_ok.mp h
    obtain ⟨hkey, rfl⟩ := insertNewTriggerIntoDb_eq_ok (wrapError_eq_ok hins)
    obtain ⟨hrows', hkeys'⟩ := insertAll_eq_ok h
    refine ⟨?_, fun hkeys => hkeys' (nodup_key_concat hkeys hkey)⟩
    rw [hrows', append_assoc]
    rfl

lemma checkAll_eq_ok : ∀ {triggers}, checkAll cfg rows wId triggers = .ok () →
    ∀ trigger ∈ triggers, validRoutePath cfg trigger.config.routePath = true ∧
      checkIfRouteExist cfg rows trigger.config wId none = .ok ()
  | [], _, _, h => absurd h not_mem_nil
  | trigger :: triggers, h, t, ht => by
    obtain ⟨_, hvalid, h⟩ := bind_eq_ok.mp h
    obtain ⟨_, hchk, h⟩ := bind_eq_ok.mp h
    rcases mem_cons.mp ht with rfl | ht
    · exact ⟨validRoutePath_of_validateNew (wrapError_eq_ok hvalid), hchk⟩
    · exact checkAll_eq_ok h t ht

lemma Good.apart_newRow (h : Good cfg rows)
    (hvalid : validRoutePath cfg trigger.config.routePath = true)
    (hchk : checkIfRouteExist cfg rows trigger.config wId none = .ok ()) :
    ∀ row ∈ rows, Apart cfg (newRow cfg wId trigger) row :=
  fun row hrow => fullKey_ne_of_check hvalid hchk hrow (h.proper row hrow) fun hpath => by
    cases hpath

lemma foldl_append {α : Type} (f : α → Row D) : ∀ (l : List α) (rows : List (Row D)),
    (l.map fun a => (· ++ [f a])).foldl (fun rows statement => statement rows) rows =
    rows ++ l.map f
  | [], rows => (append_nil rows).symm
  | a :: l, rows => by
    rw [map_cons, foldl_cons, foldl_append f l, append_assoc]
    rfl

lemma handle_eq_statements (h : handle cfg rows request = .ok rows') :
    rows' = (statements cfg request).foldl (fun rows statement => statement rows) rows := by
  cases request with
  | create authed wId trigger =>
    obtain ⟨_, -, h⟩ := bind_eq_ok.mp h
    obtain ⟨_, -, h⟩ := bind_eq_ok.mp h
    exact (insertNewTriggerIntoDb_eq_ok h).2
  | createMany authed wId triggers =>
    obtain ⟨_, -, h⟩ := bind_eq_ok.mp h
    obtain ⟨_, -, h⟩ := bind_eq_ok.mp h
    rw [(insertAll_eq_ok h).1]
    exact (foldl_append (newRow cfg wId) triggers rows).symm
  | update authed wId path trigger =>
    obtain ⟨_, -, h⟩ := bind_eq_ok.mp h
    obtain ⟨_, -, h⟩ := bind_eq_ok.mp h
    dsimp only at h
    split_ifs at h
    cases h
    rfl
  | delete authed wId path | setMode authed wId path mode edited =>
    unfold Routes.handle at h
    dsimp only at h
    split_ifs at h
    cases h
    rfl

section Update

variable {path : String}

lemma Good.editRoute (h : Good cfg rows)
    (hroute : (authed.isAdmin || effectiveWorkspaced cfg trigger.config) = true)
    (hkeys : ((Routes.updateRows authed (wId, path) (editRow cfg authed trigger) rows).map
      Row.key).Nodup) (hchk : checkUpdate cfg authed rows wId path trigger.config = .ok ())
    (hother : ∀ row ∈ rows, row.path = path → row.workspaceId ≠ wId →
      Apart cfg (newRow cfg wId trigger) row) :
    Good cfg (Routes.updateRows authed (wId, path) (editRow cfg authed trigger) rows) := by
  have hedit : ∀ row, row.key = (wId, path) → editRow cfg authed trigger row =
      newRow cfg wId trigger := by
    intro row hkey
    unfold editRow
    rw [if_pos hroute, show row.workspaceId = wId from congrArg Prod.fst hkey]
  unfold checkUpdate at hchk
  rw [if_pos hroute] at hchk
  split_ifs at hchk with hemp hinv
  have hvalid : validRoutePath cfg trigger.config.routePath = true := by simpa using hinv
  refine h.updateRows hkeys (fun row hrow hkey => ?_) fun row hrow hkey row' hrow' hne => ?_
  · rw [hedit row hkey]
    exact proper_newRow hvalid
  · rw [hedit row hkey]
    refine fullKey_ne_of_check hvalid hchk hrow' (h.proper row' hrow') fun hpath => ?_
    have hpath' : row'.path = path := Option.some.inj hpath
    have hw : row'.workspaceId ≠ wId := fun hw => hne (Prod.ext hw hpath')
    exact ⟨hw, fun _ => hother row' hrow' hpath' hw⟩

lemma Good.editOther (h : Good cfg rows)
    (hroute : ¬(authed.isAdmin || effectiveWorkspaced cfg trigger.config) = true)
    (hkeys : ((Routes.updateRows authed (wId, path) (editRow cfg authed trigger) rows).map
      Row.key).Nodup)
    (hmeth : ∀ row ∈ rows, row.key = (wId, path) → row.httpMethod = trigger.config.httpMethod) :
    Good cfg (Routes.updateRows authed (wId, path) (editRow cfg authed trigger) rows) := by
  refine h.updateRows hkeys (fun row hrow hkey => ?_) fun row hrow hkey row' hrow' hne => ?_
  · have hprop := h.proper row hrow
    unfold editRow
    rw [if_neg hroute]
    exact ⟨hprop.valid, hprop.key, hprop.workspaced⟩
  · have hapart := h.apart_of_key_ne hrow hrow' fun heq => hne (heq.symm.trans hkey)
    unfold editRow
    rw [if_neg hroute]
    exact fun hsame => hapart ((hmeth row hrow hkey).trans hsame)

end Update

/-- **A careful request keeps the routes apart.** -/
theorem Good.handle (h : Good cfg rows) (hcare : Careful cfg rows request)
    (hhandle : handle cfg rows request = .ok rows') : Good cfg rows' := by
  cases request with
  | create authed wId trigger =>
    obtain ⟨_, hvalidate, hhandle⟩ := bind_eq_ok.mp hhandle
    obtain ⟨_, hchk, hhandle⟩ := bind_eq_ok.mp hhandle
    obtain ⟨hkey, rfl⟩ := insertNewTriggerIntoDb_eq_ok hhandle
    have hvalid := validRoutePath_of_validateNew hvalidate
    refine h.append (nodup_key_concat h.keys hkey) (forall_mem_singleton.mpr (proper_newRow hvalid))
      (pairwise_singleton _ _) (forall_mem_singleton.mpr (h.apart_newRow hvalid hchk))
  | createMany authed wId triggers =>
    obtain ⟨_, hchk, hhandle⟩ := bind_eq_ok.mp hhandle
    obtain ⟨_, -, hhandle⟩ := bind_eq_ok.mp hhandle
    obtain ⟨rfl, hkeys⟩ := insertAll_eq_ok hhandle
    have hall := checkAll_eq_ok hchk
    refine h.append (hkeys h.keys) ?_ hcare ?_
    · intro row hrow
      obtain ⟨trigger, htrig, rfl⟩ := mem_map.mp hrow
      exact proper_newRow (hall trigger htrig).1
    · intro row hrow
      obtain ⟨trigger, htrig, rfl⟩ := mem_map.mp hrow
      exact h.apart_newRow (hall trigger htrig).1 (hall trigger htrig).2
  | update authed wId path trigger =>
    obtain ⟨_, -, hhandle⟩ := bind_eq_ok.mp hhandle
    obtain ⟨_, hchk, hhandle⟩ := bind_eq_ok.mp hhandle
    dsimp only at hhandle
    split_ifs at hhandle with hkeys
    cases hhandle
    unfold Careful at hcare
    dsimp only at hcare
    split_ifs at hcare with hroute
    · exact h.editRoute hroute hkeys hchk hcare
    · exact h.editOther hroute hkeys hcare
  | delete authed wId path =>
    unfold Routes.handle at hhandle
    dsimp only at hhandle
    split_ifs at hhandle
    cases hhandle
    exact h.deleteRows
  | setMode authed wId path mode edited =>
    unfold Routes.handle at hhandle
    dsimp only at hhandle
    split_ifs at hhandle
    cases hhandle
    have hedit : ∀ row, (switchRow mode edited row).key = row.key := fun _ => rfl
    refine h.updateRows ?_ (fun row hrow _ => ?_) fun row hrow hkey row' hrow' hne => ?_
    · rw [map_key_updateRows hedit]
      exact h.keys
    · have hprop := h.proper row hrow
      exact ⟨hprop.valid, hprop.key, hprop.workspaced⟩
    · have hapart := h.apart_of_key_ne hrow hrow' fun heq => hne (heq.symm.trans hkey)
      exact hapart

end Good

/-! ### Routers -/

section Routers

variable {conflict : List Char → List Char → Bool}

lemma mem_insert_of_mem (path : List Char) (trigger : Row D)
    (h : route ∈ router) : route ∈ router.insert conflict path trigger := by
  unfold Router.insert
  split_ifs
  · exact h
  · exact mem_append_left _ h

variable {path : List Char} {trigger : Row D}

lemma mem_of_mem_insert (h : route ∈ router.insert conflict path trigger) :
    route ∈ router ∨ route = (path, trigger) := by
  unfold Router.insert at h
  split_ifs at h
  · exact .inl h
  · exact (mem_append.mp h).imp_right mem_singleton.mp

lemma mem_insert_self (h : ∀ route ∈ router, conflict path route.1 = false) :
    (path, trigger) ∈ router.insert conflict path trigger := by
  have hno : ¬(router.any fun route => conflict path route.1) = true := by
    rw [any_eq_true]
    rintro ⟨route, hroute, hconf⟩
    simp [h route hroute] at hconf
  unfold Router.insert
  rw [if_neg hno]
  exact mem_append_right _ mem_cons_self

/-- The subpaths of the static websites are the paths of no trigger. -/
def SubpathsApart (cfg : Settings) (rows : List (Row D)) : Prop :=
  ∀ row ∈ rows, row.isStaticWebsite = true → ∀ row' ∈ rows, row.httpMethod = row'.httpMethod →
    renamed (fullPath cfg row') ≠ renamed (subpath cfg row)

lemma mem_of_mem_insertTrigger (h : route ∈ insertTrigger cfg conflict router trigger) :
    route ∈ router ∨ trigger.isStaticWebsite = true ∧ route.1 = subpath cfg trigger ∨
    route = (fullPath cfg trigger, trigger) := by
  rcases mem_of_mem_insert h with h | h
  · split_ifs at h with hstat
    · rcases mem_of_mem_insert h with h | h
      · exact .inl h
      · exact .inr (.inl ⟨hstat, congrArg Prod.fst h⟩)
    · exact .inl h
  · exact .inr (.inr h)

lemma mem_insertTrigger_of_mem (trigger : Row D) (h : route ∈ router) :
    route ∈ insertTrigger cfg conflict router trigger := by
  refine mem_insert_of_mem _ _ ?_
  split_ifs
  · exact mem_insert_of_mem _ _ h
  · exact h

lemma mem_foldl_insertTrigger : ∀ (triggers : List (Row D)) {router : Router D},
    route ∈ router → route ∈ triggers.foldl (insertTrigger cfg conflict) router
  | [], _, h => h
  | trigger :: triggers, _, h =>
    mem_foldl_insertTrigger triggers (mem_insertTrigger_of_mem trigger h)

/-- **Each trigger is inserted**, if the router refuses a path only for one that clashes with it. -/
theorem foldl_insertTrigger
    (hconf : ∀ path path', conflict path path' = true → renamed path = renamed path') :
    ∀ {triggers : List (Row D)} {router : Router D},
      (∀ route ∈ router, ∀ row ∈ triggers, renamed (fullPath cfg row) ≠ renamed route.1) →
      (triggers.Pairwise fun row row' => renamed (fullPath cfg row) ≠ renamed (fullPath cfg row')) →
      (∀ row ∈ triggers, row.isStaticWebsite = true → ∀ row' ∈ triggers,
        renamed (fullPath cfg row') ≠ renamed (subpath cfg row)) →
      ∀ row ∈ triggers, (fullPath cfg row, row) ∈ triggers.foldl (insertTrigger cfg conflict) router
  | [], _, _, _, _, row, hrow => absurd hrow not_mem_nil
  | trigger :: triggers, router, hrouter, hpairs, hsub, row, hrow => by
    obtain ⟨hfirst, hpairs⟩ := pairwise_cons.mp hpairs
    rw [foldl_cons]
    rcases mem_cons.mp hrow with rfl | hrow
    · refine mem_foldl_insertTrigger triggers (mem_insert_self fun route hroute => ?_)
      refine Bool.eq_false_iff.mpr fun hc => ?_
      have heq := hconf _ _ hc
      split_ifs at hroute with hstat
      · rcases mem_of_mem_insert hroute with hroute | rfl
        · exact hrouter route hroute row mem_cons_self heq
        · exact hsub row mem_cons_self hstat row mem_cons_self heq
      · exact hrouter route hroute row mem_cons_self heq
    · refine foldl_insertTrigger hconf (fun route hroute row' hrow' => ?_) hpairs
        (fun a ha hstat b hb => hsub a (mem_cons_of_mem _ ha) hstat b (mem_cons_of_mem _ hb))
        row hrow
      rcases mem_of_mem_insertTrigger hroute with hroute | ⟨hstat, hpath⟩ | rfl
      · exact hrouter route hroute row' (mem_cons_of_mem _ hrow')
      · rw [hpath]
        exact hsub trigger mem_cons_self hstat row' (mem_cons_of_mem _ hrow')
      · exact (hfirst row' hrow').symm

lemma mem_buildRouter (hclash : NoClash cfg rows) (hsub : SubpathsApart cfg rows)
    (hconf : ∀ path path', conflict path path' = true → renamed path = renamed path')
    (hrow : row ∈ rows) (hact : row.active = true) :
    (fullPath cfg row, row) ∈ buildRouter cfg conflict rows row.httpMethod := by
  have hmeth : ∀ {row'},
    row' ∈ rows.filter (fun r => r.httpMethod == row.httpMethod && r.active) →
      row' ∈ rows ∧ row'.httpMethod = row.httpMethod := by
    intro row' hrow'
    obtain ⟨hmem, hand⟩ := mem_filter.mp hrow'
    exact ⟨hmem, beq_iff_eq.mp ((Bool.and_eq_true _ _).mp hand).1⟩
  refine foldl_insertTrigger hconf (fun route hroute => absurd hroute not_mem_nil) ?_ ?_ row ?_
  · refine (hclash.sublist filter_sublist).imp_of_mem fun ha hb hab => hab ?_
    rw [(hmeth ha).2, (hmeth hb).2]
  · intro a ha hstat b hb
    refine hsub a (hmeth ha).1 hstat b (hmeth hb).1 ?_
    rw [(hmeth ha).2, (hmeth hb).2]
  · refine mem_filter.mpr ⟨hrow, ?_⟩
    rw [hact, beq_self_eq_true]
    rfl

end Routers

/-- One request. -/
def step (cfg : Settings) (rows : List (Row D)) (request : Request D) : Option (List (Row D)) :=
  some (apply cfg rows request)

/-- **Stored routes never clash**, if no request depends on a check that is not made; and every
trigger is inserted in the router that is built, if the subpaths of static websites do not clash
either. -/
theorem routes_never_clash {requests : List (Request D)} {rows : List (Row D)}
    (hcareful : Meets (step cfg) (Careful cfg) requests [])
    (hrun : run (step cfg) requests [] = some rows) :
    NoClash cfg rows ∧ (SubpathsApart cfg rows → ∀ conflict : List Char → List Char → Bool,
      (∀ path path', conflict path path' = true → renamed path = renamed path') →
      ∀ row ∈ rows, row.active = true →
        (fullPath cfg row, row) ∈ buildRouter cfg conflict rows row.httpMethod) := by
  have hgood : Good cfg rows := by
    refine run_invariant (fun h hcare hstep => ?_) good_nil hcareful hrun
    cases hstep
    unfold apply
    split
    · case _ hhandle => exact h.handle hcare hhandle
    · exact h
  exact ⟨hgood.noClash, fun hsub conflict hconf row hrow hact =>
    mem_buildRouter hgood.noClash hsub hconf hrow hact⟩

/-! ### Instances -/

def ownServer : Settings where
  cloudHosted := false
  routeWorkspaced := false
  name c := c.isAlphanum || c == '-' || c == '_'
  name_proper c h := by refine ⟨?_, ?_, ?_⟩ <;> rintro rfl <;> cases h

def workspaceA : WorkspaceId := ⟨['a'], by decide⟩

def workspaceB : WorkspaceId := ⟨['b'], by decide⟩

def admin : Authed Unit := ⟨true, fun _ => true⟩

def member : Authed Unit := ⟨false, fun _ => true⟩

def trigger (path : String) (routePath : String) (method : HttpMethod) (workspaced : Option Bool) :
    TriggerData Unit where
  path := path
  mode := .enabled
  config :=
    { routePath := routePath.toList
      authenticationMethod := .none
      httpMethod := method
      staticAsset := false
      isStaticWebsite := false
      workspacedRoute := workspaced
      rawString := none }
  details := ()

def ownRoutes : List (Request Unit) :=
  [.create admin workspaceA (trigger "f/x/users" "users/:id" .get none),
    .create member workspaceB (trigger "f/x/users" "users/:name" .get (some true)),
    .update member workspaceB "f/x/users" (trigger "f/x/people" "people/:name" .get (some true))]

theorem ownRoutes_apart : Meets (step ownServer) (Careful ownServer) ownRoutes [] ∧
    ∃ rows, run (step ownServer) ownRoutes [] = some rows ∧ rows.length = 2 ∧
    NoClash ownServer rows := by
  have hcare : Meets (step ownServer) (Careful ownServer) ownRoutes [] := by
    refine ⟨trivial, fun _ h => ?_⟩
    cases h
    refine ⟨trivial, fun _ h => ?_⟩
    cases h
    refine ⟨?_, fun _ h => ?_⟩
    · decide
    · trivial
  exact ⟨hcare, _, rfl, rfl, (routes_never_clash hcare rfl).1⟩

/-- A batch that gives the same prefix in two ways; an update to the route of a trigger with the
same path in another workspace; and an update that changes only the method. -/
theorem unchecked_routes_clash : (∃ rows, run (step ownServer) [.createMany admin workspaceA
        [trigger "f/x/one" "users" .get none, trigger "f/x/two" "users" .get (some false)]]
        [] = some rows ∧
      ¬NoClash ownServer rows) ∧
    (∃ rows, run (step ownServer) [.create admin workspaceA (trigger "f/x/one" "users" .get none),
        .create admin workspaceB (trigger "f/x/one" "people" .get none),
        .update admin workspaceB "f/x/one" (trigger "f/x/one" "users" .get none)] [] = some rows ∧
      ¬NoClash ownServer rows) ∧
    ∃ rows, run (step ownServer) [.create admin workspaceA (trigger "f/x/one" "users" .get none),
        .create admin workspaceA (trigger "f/x/two" "users" .post none),
        .update member workspaceA "f/x/two" (trigger "f/x/two" "users" .get none)] [] = some rows ∧
      ¬NoClash ownServer rows := by
  refine ⟨⟨_, rfl, fun h => ?_⟩, ⟨_, rfl, fun h => ?_⟩, _, rfl, fun h => ?_⟩
  · exact (pairwise_cons.mp h).1 _ mem_cons_self rfl rfl
  · exact (pairwise_cons.mp h).1 _ mem_cons_self rfl rfl
  · exact (pairwise_cons.mp h).1 _ mem_cons_self rfl rfl

end Windmill.Trigger.Clashes
