import Windmill.App.Args
import Windmill.Lib.Except
import Windmill.Lib.JsonUnique

/-! # Arguments that name secrets

The filter of `build_args` looks for markers in the texts of the arguments, the worker in their
values. `Clean` says of an argument, as it is written, that no string of it is replaced by the
worker after the filter (`replaced_iff`). A call of `build_args` that succeeds keeps to the policy
and protects the secrets of the publisher if and only if the request is `Harmless`
(`viewer_arguments_protected`). -/

namespace Windmill.App.Secrets

open Lib.JsonText Lib.Lookup Lib.Except Args List
open Lib.Records (Json)

/-! ### One string -/

def Known (s : RawString) : Prop :=
  startsPlain varMarker.text s = true ∨ startsPlain resMarker.text s = true

lemma avoids {n} (hn : n ∈ markers) :
    n.Avoids variableSubstitute ∧ n.Avoids resourceSubstitute := by
  have hdol : '$' ≠ 'T' := by decide
  have htail : ∀ n ∈ markers, 'T' ∉ n.tail := by decide
  exact ⟨⟨hdol, htail n hn⟩, hdol, htail n hn⟩

lemma and_not_or {p v r : Prop} : (p ∧ ¬v) ∧ ¬(r ∧ ¬v) ↔ p ∧ ¬(v ∨ r) := by tauto

lemma and_not_or' {p v r : Prop} : (p ∧ ¬r) ∧ ¬v ↔ p ∧ ¬(v ∨ r) := by tauto

section

variable {n : Marker} {s : RawString}

lemma startsPlain_res_replace (s : RawString) :
    startsPlain resMarker.text (replaceIn varMarker variableSubstitute.pieces s) = true ↔
      startsPlain resMarker.text s = true ∧ ¬startsPlain varMarker.text s = true :=
  reading_startsPlain.replace_iff (avoids (by simp [markers])).1 s

lemma prefix_omitMarkers (hn : n ∈ markers) : n.text <+: decode (omitMarkers s) ↔
    n.text <+: decode s ∧ ¬Known s := by
  have hres := (local_starts (m := resMarker) (avoids hn).2).replace
    (replaceIn varMarker variableSubstitute.pieces s)
  have hvar := (local_starts (m := varMarker) (avoids hn).1).replace s
  unfold omitMarkers Known
  rw [hres, hvar, startsPlain_res_replace]
  exact and_not_or

def Left (n : Marker) (s : RawString) : Prop :=
  Occurs (fun post => n.text <+: decode post ∧ ¬Known post) s

lemma infix_omitMarkers (hn : n ∈ markers) : n.text <:+: decode (omitMarkers s) ↔ Left n s := by
  have hlocal : Local varMarker variableSubstitute
      fun ps => n.text <+: decode ps ∧ ¬startsPlain resMarker.text ps = true := by
    refine ⟨fun ps hps => (local_starts (m := varMarker) (avoids hn).1).dollar ps hps.1,
      fun ps => ?_⟩
    rw [(local_starts (m := varMarker) (avoids hn).1).replace ps, startsPlain_res_replace]
    exact and_not_or.trans and_not_or'.symm
  have hshape : ∀ post : RawString,
    (n.text <+: decode post ∧ ¬startsPlain resMarker.text post = true) ∧
      ¬startsPlain varMarker.text post = true ↔ n.text <+: decode post ∧ ¬Known post := by
    intro post
    exact and_not_or'
  have hne : n.text ≠ [] := cons_ne_nil _ _
  unfold omitMarkers Left
  rw [infix_iff_occurs hne, occurs_replace (local_starts (avoids hn).2), occurs_replace hlocal]
  exact exists_congr fun post => and_congr_right fun _ => hshape post

def IsReserved (reserved : Reserved) (s : RawString) : Prop :=
  ∃ name ∈ reserved.names, decode s = '$' :: name.toList

lemma omitMarkers_eq_self (h : ':' ∉ decode s) : omitMarkers s = s := by
  unfold omitMarkers
  rw [replaceIn_eq_self (m := varMarker) (by decide) h,
    replaceIn_eq_self (m := resMarker) (by decide) h]

lemma space_mem_or (m : Marker) {sub : Substitute} (hsub : ' ' ∈ decode sub.pieces)
    (s : RawString) : replaceIn m sub.pieces s = s ∨ ' ' ∈ decode (replaceIn m sub.pieces s) :=
  (replaceIn_eq_self_or m sub s).imp_right fun h => h hsub

lemma isReserved_omitMarkers {reserved : Reserved} : IsReserved reserved (omitMarkers s) ↔
    IsReserved reserved s := by
  have hprop : ∀ name ∈ reserved.names, ∀ d ∈ [' ', ':'], d ∉ '$' :: name.toList := by
    intro name hname d hd hmem
    have hchar : ∀ d ∈ [' ', ':'], d ≠ '$' ∧ ¬(d.isAlphanum = true ∨ d = '_') := by decide
    rcases mem_cons.mp hmem with heq | hmem
    · exact (hchar d hd).1 heq
    · exact (hchar d hd).2 (reserved.proper name hname d hmem)
  constructor
  · rintro ⟨name, hname, heq⟩
    -- nothing was replaced, for there would be a space
    have hspaces : ' ' ∈ decode variableSubstitute.pieces ∧
        ' ' ∈ decode resourceSubstitute.pieces := by decide +kernel
    refine ⟨name, hname, ?_⟩
    rw [← heq]
    unfold omitMarkers at heq ⊢
    rcases space_mem_or resMarker hspaces.2
      (replaceIn varMarker variableSubstitute.pieces s) with hres | hsp
    · rcases space_mem_or varMarker hspaces.1 s with hvar | hsp
      · rw [hres, hvar]
      · rw [hres] at heq
        rw [heq] at hsp
        exact absurd hsp (hprop name hname _ mem_cons_self)
    · rw [heq] at hsp
      exact absurd hsp (hprop name hname _ mem_cons_self)
  · rintro ⟨name, hname, heq⟩
    refine ⟨name, hname, ?_⟩
    rwa [omitMarkers_eq_self]
    rw [heq]
    exact hprop name hname _ (by simp)

end

/-! ### One argument -/

def filterOf (t : RawJson) : RawString → RawString := if suspicious t.text then omitMarkers else id

lemma filtered_eq (t : RawJson) : filtered t = t.mapStrings (filterOf t) := by
  unfold filtered filterOf
  split_ifs
  · rfl
  · exact (mapStrings_id t).symm

def Enabled (t : RawJson) : Prop :=
  ∃ s ∈ t.strings (filterOf t), ∃ n ∈ markers, if suspicious t.text then Left n s
    else n.text <:+: decode s

structure Clean (reserved : Reserved) (t : RawJson) : Prop where
  known : ∀ s ∈ t.reached enter (filterOf t) 0, ∀ n ∈ markers, n.text <+: decode s → Known s
  reserved : ∀ s ∈ t.reached enter (filterOf t) 0, IsReserved reserved s → ¬Enabled t

section

variable {reserved : Reserved} {t : RawJson} {s : RawString}

lemma toList_after (g : RawString → RawString) (s : RawString) :
    (after g s).toList = decode (g s) :=
  String.toList_ofList

lemma suspicious_of_known (hs : s ∈ t.reached enter (filterOf t) 0) (h : Known s) :
    suspicious t.text = true := by
  have hquoted : quoted s <:+: t.text := quoted_infix_text 0 hs
  have hstart : ∀ m : Marker, startsPlain m.text s = true → '\x22' :: m.text <:+: t.text := by
    intro m hm
    have hpref : m.text <+: raw s ++ ['\x22'] := (prefix_raw_iff m.text_proper [] s).mpr hm
    have hcons : '\x22' :: m.text <+: quoted s := cons_prefix_cons.mpr ⟨rfl, hpref⟩
    exact hcons.isInfix.trans hquoted
  unfold suspicious
  rw [Bool.or_eq_true, decide_eq_true_eq, decide_eq_true_eq]
  exact h.imp (hstart varMarker) (hstart resMarker)

lemma prefix_filterOf (hs : s ∈ t.reached enter (filterOf t) 0) {n} (hn : n ∈ markers) :
    n.text <+: decode (filterOf t s) ↔ n.text <+: decode s ∧ ¬Known s := by
  cases hsus : suspicious t.text with
  | true =>
    have hfilt : filterOf t s = omitMarkers s := by
      unfold filterOf
      rw [if_pos hsus]
    rw [hfilt]
    exact prefix_omitMarkers hn
  | false =>
    have hfilt : filterOf t s = s := by
      unfold filterOf
      rw [hsus]
      rfl
    have hunk : ¬Known s := fun hknown => by
      simp [suspicious_of_known hs hknown] at hsus
    rw [hfilt]
    exact ⟨fun hpref => ⟨hpref, hunk⟩, And.left⟩

lemma isReserved_filterOf : IsReserved reserved (filterOf t s) ↔ IsReserved reserved s := by
  unfold filterOf
  split_ifs
  · exact isReserved_omitMarkers
  · exact Iff.rfl

lemma matchesResVar_filtered : matchesResVar (filtered t).value = true ↔ Enabled t := by
  have hstr : ∀ s : RawString, ∀ n ∈ markers, n.text <:+: (after (filterOf t) s).toList ↔
      if suspicious t.text then Left n s else n.text <:+: decode s := by
    intro s n hn
    rw [toList_after]
    unfold filterOf
    split_ifs
    · exact infix_omitMarkers hn
    · exact Iff.rfl
  unfold matchesResVar Enabled
  rw [filtered_eq, strings_value, any_map, any_eq_true]
  refine exists_congr fun s => and_congr_right fun _ => ?_
  rw [Function.comp_apply, any_eq_true]
  refine exists_congr fun n => and_congr_right fun hn => ?_
  rw [decide_eq_true_eq]
  exact hstr s n hn

lemma resolves_iff {s g} : resolves reserved.names (after g s) = true ↔
    (∃ n ∈ markers, n.text <+: decode (g s)) ∨ IsReserved reserved (g s) := by
  unfold resolves
  rw [Bool.or_eq_true, any_eq_true]
  refine or_congr (exists_congr fun n => and_congr_right fun _ => ?_) ?_
  · unfold startsWith
    rw [toList_after, isPrefixOf_iff_prefix]
  rw [toList_after]
  unfold IsReserved
  split
  · case _ name hname =>
    rw [hname, decide_eq_true_eq]
    refine ⟨fun hmem => ⟨_, hmem, by rw [String.toList_ofList]⟩, ?_⟩
    rintro ⟨name', hmem, heq⟩
    rwa [(cons.inj heq).2, String.ofList_toList]
  · case _ hother =>
    constructor
    · intro h
      cases h
    · rintro ⟨name, -, heq⟩
      exact absurd heq (hother name.toList)

/-- **The worker replaces no string of a filtered argument** if and only if it is clean. -/
theorem replaced_iff : replaced reserved.names (filtered t).value = [] ↔ Clean reserved t := by
  have hreach : reached enter 0 (filtered t).value = (t.reached enter (filterOf t) 0).map
      (after (filterOf t)) := by
    rw [filtered_eq, reached_value]
  constructor
  · intro h
    have hnot : ∀ s ∈ t.reached enter (filterOf t) 0, matchesResVar (filtered t).value = true →
        ¬resolves reserved.names (after (filterOf t) s) = true := by
      intro s hs hmatch
      unfold replaced at h
      rw [if_pos hmatch, hreach, filter_eq_nil_iff] at h
      exact h _ (mem_map_of_mem hs)
    refine ⟨fun s hs n hn hpref => ?_, fun s hs hresv hen => ?_⟩
    · by_contra hunk
      have hfilt := (prefix_filterOf hs hn).mpr ⟨hpref, hunk⟩
      refine hnot s hs ?_ (resolves_iff.mpr (.inl ⟨n, hn, hfilt⟩))
      -- the string itself has the marker in it
      refine any_eq_true.mpr ⟨after (filterOf t) s, ?_, any_eq_true.mpr ⟨n, hn, ?_⟩⟩
      · refine mem_strings_of_reached enter 0 ?_
        rw [hreach]
        exact mem_map_of_mem hs
      · rw [decide_eq_true_eq, toList_after]
        exact hfilt.isInfix
    · exact hnot s hs (matchesResVar_filtered.mpr hen)
        (resolves_iff.mpr (.inr (isReserved_filterOf.mpr hresv)))
  · intro h
    unfold replaced
    split_ifs with hmatch
    · rw [hreach, filter_eq_nil_iff]
      intro s' hs' hres
      obtain ⟨s, hs, rfl⟩ := mem_map.mp hs'
      rcases resolves_iff.mp hres with ⟨n, hn, hpref⟩ | hresv
      · have hand := (prefix_filterOf hs hn).mp hpref
        exact hand.2 (h.known s hs n hn hand.1)
      · exact h.reserved s hs (isReserved_filterOf.mp hresv) (matchesResVar_filtered.mp hmatch)
    · rfl

end

/-! ### All arguments -/

def Allowed (options : List RawJson) (v : Json) : Prop :=
  (∃ o ∈ options, v = o.value) ∨ ∃ items, v = .arr items ∧ ∀ item ∈ items, ∃ o ∈ options,
    item = o.value

/-- What the policy and the viewer can rely on. -/
structure Protected (reserved : Reserved) (inputs : Inputs) (pushed : List (String × Arg)) :
  Prop where
  statics : ∀ input ∈ inputs.staticInputs.entries, (pushed.lookup input.1).map Arg.value =
    some input.2.value
  oneOf : ∀ input ∈ inputs.oneOfInputs.entries, input.1 ∉ inputs.staticInputs.keys →
    ∀ arg, pushed.lookup input.1 = some arg → Allowed input.2 arg.value
  secrets : ∀ key text, (key, .request text) ∈ pushed → replaced reserved.names text.value = []

structure Harmless (reserved : Reserved) (env : Env) (inputs : Inputs) (args : Fields RawJson) :
  Prop where
  /-- A one-of input is not a resource of the viewer, or its encrypted value is an option. -/
  oneOf : ∀ input ∈ inputs.oneOfInputs.entries, input.1 ∉ inputs.staticInputs.keys →
    input.1 ∈ inputs.allowUserResources → ∀ arg path value, args.get input.1 = some arg →
    resourcePath arg = some path →
    env.resource path = .ok (some value) →
    Allowed input.2 (.str ("$encrypted:" ++ env.encrypt value))
  clean : ∀ arg ∈ args.entries, arg.1 ∉ inputs.staticInputs.keys → arg.1 ∉ inputs.oneOfInputs.keys →
    (arg.1 ∈ inputs.allowUserResources → resourcePath arg.2 = none) → ¬ctxStart <+: arg.2.text →
    Clean reserved arg.2

section

variable {reserved : Reserved} {env : Env} {inputs : Inputs} {args : Fields RawJson}
  {out : List (String × Arg)} {input : String × List RawJson} {arg : String × RawJson}

lemma userResource_eq_ok {key} (h : userResource env args key = .ok out) :
    ((args.get key).bind resourcePath = none ∧ out = []) ∨ ∃ path value,
    (args.get key).bind resourcePath = some path ∧
      env.resource path = .ok (some value) ∧ out = [(key, .resource (env.encrypt value))] := by
  unfold userResource at h
  split at h
  · case _ hnone =>
    cases h
    exact .inl ⟨hnone, rfl⟩
  · cases h
  · case _ path viewer hpath _ =>
    split at h
    · cases h
    · cases h
    · case _ value hval =>
      cases h
      exact .inr ⟨path, value, hpath, hval, rfl⟩

lemma oneOfInput_eq_ok {safe} (h : oneOfInput args safe input = .ok out) :
    ((input.1 ∈ safe ∨ args.get input.1 = none) ∧ out = []) ∨ ∃ arg, args.get input.1 = some arg ∧
      allowed input.2 arg = true ∧ out = [(input.1, .option arg)] := by
  unfold oneOfInput at h
  split_ifs at h with hsafe
  · cases h
    exact .inl ⟨.inl hsafe, rfl⟩
  split at h
  · case _ hnone =>
    cases h
    exact .inl ⟨.inr hnone, rfl⟩
  · case _ arg harg =>
    split_ifs at h with hallow
    cases h
    exact .inr ⟨arg, harg, hallow, rfl⟩

lemma otherInput_eq_ok {out} (h : otherInput env arg = .ok out) :
    (∃ value, out = (arg.1, .context value)) ∧ ctxStart <+: arg.2.text ∨
      out = (arg.1, .request (filtered arg.2)) ∧ ¬ctxStart <+: arg.2.text := by
  unfold otherInput at h
  split_ifs at h with hctx
  · obtain ⟨value, -, rfl⟩ := map_eq_ok.mp h
    exact .inl ⟨⟨value, rfl⟩, hctx⟩
  · cases h
    exact .inr ⟨rfl, hctx⟩

structure Built (env : Env) (inputs : Inputs) (args : Fields RawJson)
    (resources options others : List (String × Arg)) : Prop where
  resources_mem : ∀ key a, (key, a) ∈ resources ↔ key ∈ inputs.allowUserResources ∧ ∃ path value,
    (args.get key).bind resourcePath = some path ∧ env.resource path = .ok (some value) ∧
    a = .resource (env.encrypt value)
  resources_keys : ∀ key, key ∈ inputs.allowUserResources →
    (args.get key).bind resourcePath ≠ none → key ∈ resources.map Prod.fst
  options_mem : ∀ key a, (key, a) ∈ options → ∃ choices,
    (key, choices) ∈ inputs.oneOfInputs.entries ∧ ∃ arg,
    args.get key = some arg ∧ allowed choices arg = true ∧ a = .option arg
  options_keys : ∀ key, key ∈ inputs.oneOfInputs.keys → key ∉ resources.map Prod.fst →
    args.get key ≠ none → key ∈ options.map Prod.fst
  others_mem : ∀ key a, (key, a) ∈ others ↔ ∃ t, (key, t) ∈ args.entries ∧
    key ∉ (resources ++ options).map Prod.fst ∧ otherInput env (key, t) = .ok (key, a)

lemma built_of_ok (h : buildArgs env inputs args = .ok out) :
    ∃ resources options others, out = resources ++ options ++ others ∧
    Built env inputs args resources options others := by
  obtain ⟨rs, hrs, h⟩ := bind_eq_ok.mp h
  obtain ⟨os, hos, h⟩ := bind_eq_ok.mp h
  obtain ⟨others, hothers, h⟩ := bind_eq_ok.mp h
  cases h
  obtain ⟨hrs, hrs'⟩ := mem_of_forall₂ (forall₂_of_mapM_eq_ok hrs)
  obtain ⟨hos, hos'⟩ := mem_of_forall₂ (forall₂_of_mapM_eq_ok hos)
  obtain ⟨hothers, hothers'⟩ := mem_of_forall₂ (forall₂_of_mapM_eq_ok hothers)
  refine ⟨rs.flatten, os.flatten, others, rfl,
    ⟨fun key a => ⟨fun hmem => ?_, ?_⟩, fun key hallow hpath => ?_,
    fun key a hmem => ?_, fun key hkey hnot hsome => ?_, fun key a => ⟨fun hmem => ?_, ?_⟩⟩⟩
  · obtain ⟨l, hl, hmem⟩ := mem_flatten.mp hmem
    obtain ⟨key', hallow, hok⟩ := hrs' l hl
    rcases userResource_eq_ok hok with ⟨-, rfl⟩ | ⟨path, value, hpath, hval, rfl⟩
    · exact absurd hmem not_mem_nil
    · cases mem_singleton.mp hmem
      exact ⟨hallow, path, value, hpath, hval, rfl⟩
  · rintro ⟨hallow, path, value, hpath, hval, rfl⟩
    obtain ⟨l, hl, hok⟩ := hrs key hallow
    refine mem_flatten.mpr ⟨l, hl, ?_⟩
    rcases userResource_eq_ok hok with ⟨hnone, -⟩ | ⟨path', value', hpath', hval', rfl⟩
    · simp [hpath] at hnone
    · cases hpath.symm.trans hpath'
      cases hval.symm.trans hval'
      exact mem_singleton_self _
  · obtain ⟨l, hl, hok⟩ := hrs key hallow
    rcases userResource_eq_ok hok with ⟨hnone, -⟩ | ⟨path, value, -, -, rfl⟩
    · exact absurd hnone hpath
    · exact mem_keys_iff.mpr ⟨_, mem_flatten.mpr ⟨_, hl, mem_singleton_self _⟩⟩
  · obtain ⟨l, hl, hmem⟩ := mem_flatten.mp hmem
    obtain ⟨⟨key', choices⟩, hin, hok⟩ := hos' l hl
    rcases oneOfInput_eq_ok hok with ⟨-, rfl⟩ | ⟨arg, harg, hallowed, rfl⟩
    · exact absurd hmem not_mem_nil
    · cases mem_singleton.mp hmem
      exact ⟨choices, hin, arg, harg, hallowed, rfl⟩
  · obtain ⟨choices, hin⟩ := mem_keys_iff.mp hkey
    obtain ⟨l, hl, hok⟩ := hos _ hin
    rcases oneOfInput_eq_ok hok with ⟨hskip, -⟩ | ⟨arg, -, -, rfl⟩
    · rcases hskip with hsafe | hnone
      · exact absurd hsafe hnot
      · exact absurd hnone hsome
    · exact mem_keys_iff.mpr ⟨_, mem_flatten.mpr ⟨_, hl, mem_singleton_self _⟩⟩
  · obtain ⟨⟨key', t⟩, hfilt, hok⟩ := hothers' _ hmem
    obtain ⟨ht, hsafe⟩ := mem_filter.mp hfilt
    have hkey : key' = key := by
      rcases otherInput_eq_ok hok with ⟨⟨value, heq⟩, -⟩ | ⟨heq, -⟩
      · exact (congrArg Prod.fst heq).symm
      · exact (congrArg Prod.fst heq).symm
    subst hkey
    exact ⟨t, ht, of_decide_eq_true hsafe, hok⟩
  · rintro ⟨t, ht, hsafe, hok⟩
    obtain ⟨out, hout, hok'⟩ := hothers (key, t) (mem_filter.mpr ⟨ht, decide_eq_true hsafe⟩)
    cases hok.symm.trans hok'
    exact hout

lemma allowed_value {options arg} (h : allowed options arg = true) : Allowed options arg.value := by
  have hopt : ∀ t : RawJson, t.text ∈ options.map RawJson.text → ∃ o ∈ options,
      t.value = o.value := by
    intro t ht
    obtain ⟨o, ho, htext⟩ := mem_map.mp ht
    exact ⟨o, ho, Lib.JsonUnique.value_eq_of_text_eq htext.symm⟩
  rcases (Bool.or_eq_true _ _).mp h with hone | hlist
  · exact .inl (hopt arg (of_decide_eq_true hone))
  cases arg with
  | arr ws items =>
    refine .inr ⟨itemsValues items, rfl, fun item hitem => ?_⟩
    rw [itemsValues_eq_map] at hitem
    obtain ⟨t, ht, rfl⟩ := mem_map.mp hitem
    exact hopt t.2.1 (of_decide_eq_true (all_eq_true.mp hlist t ht))
  | null | bool | number | str | obj => cases hlist

section

variable {key : String}

lemma mem_pushArgs_iff {arg : Arg} (hkey : key ∉ inputs.staticInputs.keys) :
    (key, arg) ∈ pushArgs inputs out ↔ (key, arg) ∈ out := by
  unfold pushArgs
  rw [mem_append, mem_filter]
  constructor
  · rintro (hstat | hout)
    · obtain ⟨input, hin, heq⟩ := mem_map.mp hstat
      cases heq
      exact absurd (mem_map_of_mem hin) hkey
    · exact hout.1
  · intro hout
    exact .inr ⟨hout, decide_eq_true hkey⟩

lemma key_notMem_of_request {text} (h : (key, .request text) ∈ pushArgs inputs out) :
    key ∉ inputs.staticInputs.keys := by
  rcases mem_append.mp h with hstat | hout
  · obtain ⟨input, -, heq⟩ := mem_map.mp hstat
    cases heq
  · exact of_decide_eq_true (mem_filter.mp hout).2

lemma lookup_filter {keys : List String} (hkey : key ∉ keys) : ∀ l : List (String × Arg),
    (l.filter fun arg => arg.1 ∉ keys).lookup key = l.lookup key
  | [] => rfl
  | (key', a) :: rest => by
    have ih : (rest.filter fun arg => arg.1 ∉ keys).lookup key = rest.lookup key :=
      lookup_filter hkey rest
    by_cases hmem : key' ∈ keys
    · have hne : key ≠ key' := fun heq => hkey (heq ▸ hmem)
      rw [filter_cons_of_neg (by simp [hmem]), lookup_cons, beq_false_of_ne hne]
      exact ih
    · rw [filter_cons_of_pos (by simp [hmem]), lookup_cons, lookup_cons, ih]

lemma lookup_pushArgs (hkey : key ∉ inputs.staticInputs.keys) :
    (pushArgs inputs out).lookup key = out.lookup key := by
  have hnone : (inputs.staticInputs.entries.map fun input => (input.1, Arg.static input.2)).lookup
      key = none := by
    rw [lookup_eq_none_iff]
    intro p hp
    obtain ⟨input, hin, rfl⟩ := mem_map.mp hp
    exact bne_iff_ne.mpr fun heq => hkey (heq ▸ mem_map_of_mem hin)
  unfold pushArgs
  rw [lookup_append, hnone, Option.none_or, lookup_filter hkey]

lemma lookup_static {input} (h : input ∈ inputs.staticInputs.entries) :
    (pushArgs inputs out).lookup input.1 = some (.static input.2) := by
  have hstatics : ((inputs.staticInputs.entries.map fun input => (input.1, Arg.static input.2)).map
      Prod.fst).Nodup := by
    rw [map_map]
    exact inputs.staticInputs.nodup
  unfold pushArgs
  rw [lookup_append, (lookup_eq_some_iff hstatics).mpr
    (mem_map_of_mem (f := fun input => (input.1, Arg.static input.2)) h)]
  rfl

end

section

variable {resources options others : List (String × Arg)}
  (h : Built env inputs args resources options others)
include h

lemma Built.key_cases {key arg} (hmem : (key, arg) ∈ resources ++ options ++ others) :
    (key ∈ inputs.allowUserResources ∧ ∃ path value, (args.get key).bind resourcePath = some path ∧
      env.resource path = .ok (some value) ∧ arg = .resource (env.encrypt value)) ∨
    (∃ choices t, (key, choices) ∈ inputs.oneOfInputs.entries ∧ allowed choices t = true ∧
      arg = .option t) ∨ ∃ t, (key, t) ∈ args.entries ∧ key ∉ inputs.oneOfInputs.keys ∧
      (key ∈ inputs.allowUserResources → resourcePath t = none) ∧ otherInput env (key, t) = .ok
      (key, arg) := by
  rcases mem_append.mp hmem with hmem | hother
  · rcases mem_append.mp hmem with hres | hopt
    · exact .inl ((h.resources_mem key arg).mp hres)
    · obtain ⟨choices, hchoice, t, -, hallowed, rfl⟩ := h.options_mem key arg hopt
      exact .inr (.inl ⟨choices, t, hchoice, hallowed, rfl⟩)
  obtain ⟨t, ht, hsafe, hok⟩ := (h.others_mem key arg).mp hother
  rw [map_append, mem_append, not_or] at hsafe
  have hget : args.get key = some t := get_eq_some_iff.mpr ht
  refine .inr (.inr ⟨t, ht, fun hkey => hsafe.2 (h.options_keys key hkey hsafe.1 ?_), fun hallow =>
    ?_, hok⟩)
  · rw [hget]
    exact Option.some_ne_none t
  · by_contra hpath
    refine hsafe.1 (h.resources_keys key hallow ?_)
    rwa [hget]

lemma Built.oneOf (hprot : Protected reserved inputs
    (pushArgs inputs (resources ++ options ++ others))) (hin : input ∈ inputs.oneOfInputs.entries)
    (hstat : input.1 ∉ inputs.staticInputs.keys) (hallow : input.1 ∈ inputs.allowUserResources)
    {arg path value} (harg : args.get input.1 = some arg) (hpath : resourcePath arg = some path)
    (hval : env.resource path = .ok (some value)) :
    Allowed input.2 (.str ("$encrypted:" ++ env.encrypt value)) := by
  have hbind : (args.get input.1).bind resourcePath = some path := by rwa [harg]
  have hmem := (h.resources_mem input.1 (.resource (env.encrypt value))).mpr ⟨hallow, path, value,
    hbind, hval, rfl⟩
  obtain ⟨a, hlook⟩ := exists_lookup (mem_keys_iff.mpr ⟨_, hmem⟩)
  -- all entries of the key are the same
  obtain ⟨-, path', value', hbind', hval', rfl⟩ :=
    (h.resources_mem input.1 a).mp (mem_of_lookup hlook)
  cases hbind.symm.trans hbind'
  cases hval.symm.trans hval'
  refine hprot.oneOf input hin hstat (.resource (env.encrypt value)) ?_
  rw [lookup_pushArgs hstat, append_assoc, lookup_append, hlook]
  rfl

lemma Built.protected_of_harmless (hharm : Harmless reserved env inputs args) :
    Protected reserved inputs (pushArgs inputs (resources ++ options ++ others)) := by
  refine ⟨fun input hin => ?_, fun input hin hstat arg hlook => ?_, fun key text hmem => ?_⟩
  · rw [lookup_static hin]
    rfl
  · rw [lookup_pushArgs hstat] at hlook
    rcases h.key_cases (mem_of_lookup hlook) with ⟨hallow, path, value, hbind, hval, rfl⟩ |
        ⟨choices, t, hchoice, hallowed, rfl⟩ | ⟨t, -, hkey, -⟩
    · obtain ⟨arg, harg, hpath⟩ := Option.bind_eq_some_iff.mp hbind
      exact hharm.oneOf input hin hstat hallow arg path value harg hpath hval
    · have hsame : choices = input.2 :=
        Option.some_inj.mp ((get_eq_some_iff.mpr hchoice).symm.trans (get_eq_some_iff.mpr hin))
      subst hsame
      exact allowed_value hallowed
    · exact absurd (mem_map_of_mem hin) hkey
  · have hstat := key_notMem_of_request hmem
    rcases h.key_cases ((mem_pushArgs_iff hstat).mp hmem) with ⟨-, path, value, -, -,
      heq⟩ | ⟨choices, t, -, -, heq⟩ |
        ⟨t, ht, hkey, hallow, hok⟩
    · cases heq
    · cases heq
    · rcases otherInput_eq_ok hok with ⟨⟨value, heq⟩, -⟩ | ⟨heq, hctx⟩
      · cases heq
      · cases heq
        exact replaced_iff.mpr (hharm.clean (key, t) ht hstat hkey hallow hctx)

lemma Built.clean
    (hprot : Protected reserved inputs (pushArgs inputs (resources ++ options ++ others)))
    (harg : arg ∈ args.entries)
    (hstat : arg.1 ∉ inputs.staticInputs.keys) (honeOf : arg.1 ∉ inputs.oneOfInputs.keys)
    (hallow : arg.1 ∈ inputs.allowUserResources → resourcePath arg.2 = none)
    (hctx : ¬ctxStart <+: arg.2.text) : Clean reserved arg.2 := by
  have hget : args.get arg.1 = some arg.2 := get_eq_some_iff.mpr harg
  have hresources : arg.1 ∉ resources.map Prod.fst := by
    intro hmem
    obtain ⟨a, ha⟩ := mem_keys_iff.mp hmem
    obtain ⟨hallowed, path, value, hbind, -⟩ := (h.resources_mem arg.1 a).mp ha
    simp [hget, Option.bind_some, hallow hallowed] at hbind
  have hopts : arg.1 ∉ options.map Prod.fst := by
    intro hmem
    obtain ⟨a, ha⟩ := mem_keys_iff.mp hmem
    obtain ⟨choices, hchoice, -⟩ := h.options_mem arg.1 a ha
    exact honeOf (mem_map_of_mem hchoice)
  have hother : (arg.1, Arg.request (filtered arg.2)) ∈ others := by
    refine (h.others_mem arg.1 _).mpr ⟨arg.2, harg, ?_, if_neg hctx⟩
    rw [map_append, mem_append, not_or]
    exact ⟨hresources, hopts⟩
  exact replaced_iff.mp (hprot.secrets arg.1 (filtered arg.2)
    ((mem_pushArgs_iff hstat).mpr (mem_append_right _ hother)))

end

/-- **The arguments of the viewer read no secret of the publisher**, and the policy holds, if and
only if the request is harmless. -/
theorem viewer_arguments_protected {out : List (String × Arg)}
    (h : buildArgs env inputs args = .ok out) :
    Protected reserved inputs (pushArgs inputs out) ↔ Harmless reserved env inputs args := by
  obtain ⟨resources, options, others, rfl, hbuilt⟩ := built_of_ok h
  constructor
  · intro hprot
    refine ⟨fun input hin hstat hallow arg path value harg hpath hval => ?_,
      fun arg harg hstat hkey hallow hctx => ?_⟩
    · exact hbuilt.oneOf hprot hin hstat hallow harg hpath hval
    · exact hbuilt.clean hprot harg hstat hkey hallow hctx
  · exact hbuilt.protected_of_harmless

end

/-! ### Requests -/

def plain (chars : String) (h : ∀ c ∈ chars.toList, c ≠ '\x22' ∧ c ≠ '\\' := by decide) :
    RawString :=
  plainString chars.toList h

def noSpace : Ws := ⟨[], isWs_of_mem_nil⟩

def escapedDollar : Piece := .unicode ⟨"0024".toList, rfl, by decide⟩ '$' rfl

def jobVariables : Reserved := ⟨["WM_TOKEN"], by decide +kernel⟩

def viewing : Env where
  authed := some ⟨"bob", "bob@acme.com", []⟩
  workspace := "acme"
  onBehalfOfEmail := some "alice@acme.com"
  resource path := .ok (if path = "u/bob/db" then some (.str "postgres") else none)
  encrypt _ := "c2VjcmV0"

def formInputs : Inputs where
  staticInputs := ⟨[("table", .str (plain "orders"))], by decide⟩
  oneOfInputs := ⟨[("color", [.str (plain "red"), .str (plain "blue")])], by decide⟩
  allowUserResources := ["db"]

def formArgs : Fields RawJson where
  entries := [("table", .str (plain "users")), ("color", .str (plain "red")),
    ("db", .str (plain "$res:u/bob/db")), ("note", .str (plain "$var:u/alice/key"))]
  nodup := by decide

lemma harmless_form : Harmless jobVariables viewing formInputs formArgs := by
  refine ⟨fun input hin _ hallow => ?_, fun arg harg hstat honeOf hallow _ => ?_⟩
  · cases mem_singleton.mp hin
    exact absurd hallow (by decide)
  rcases mem_cons.mp harg with rfl | harg
  · exact absurd mem_cons_self hstat
  rcases mem_cons.mp harg with rfl | harg
  · exact absurd mem_cons_self honeOf
  · rcases mem_cons.mp harg with rfl | harg
    · cases hallow (by decide)
    · cases mem_singleton.mp harg
      exact replaced_iff.mp (by decide +kernel)

theorem form_arguments_protected : Harmless jobVariables viewing formInputs formArgs ∧
    ∃ out, buildArgs viewing formInputs formArgs = .ok out ∧ Protected jobVariables formInputs
    (pushArgs formInputs out) :=
  ⟨harmless_form, _, rfl, (viewer_arguments_protected rfl).mpr harmless_form⟩

def noInputs : Inputs := ⟨⟨[], by decide⟩, ⟨[], by decide⟩, []⟩

def hiddenArgs : Fields RawJson where
  entries := [("a", .str (plain "$jsonvar:u/alice/key")),
    ("b", .str (escapedDollar :: plain "var:u/alice/key")),
    ("c", .arr noSpace [(noSpace, .str (plain "$WM_TOKEN"), noSpace),
      (noSpace, .str (plain "a $var:"), noSpace)])]
  nodup := by decide

theorem hidden_arguments_replaced : ∃ out, buildArgs viewing noInputs hiddenArgs = .ok out ∧
    (pushArgs noInputs out).map (fun arg => (arg.1, replaced jobVariables.names arg.2.value)) =
      [("a", ["$jsonvar:u/alice/key"]), ("b", ["$var:u/alice/key"]), ("c", ["$WM_TOKEN"])] ∧
    ¬Protected jobVariables noInputs (pushArgs noInputs out) := by
  refine ⟨_, rfl, by decide +kernel, fun hprot => ?_⟩
  have hnone := hprot.secrets "a" (filtered (.str (plain "$jsonvar:u/alice/key"))) mem_cons_self
  exact absurd hnone (by decide +kernel)

end Windmill.App.Secrets
