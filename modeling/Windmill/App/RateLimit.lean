import Windmill.App.History

/-! # The limit of anonymous requests

Requests without a user are counted for each workspace and minute, once the policy is known; all of
them share the count, whatever app or version they are for. -/

namespace Windmill.App.RateLimit

open Lib.Effect Lib.Memo Lib.Run Execute History List

section Frame

variable {S ε α β γ : Type} {g : S → γ}

/-- The computation leaves this part of the state as it is. -/
def Frames (g : S → γ) (m : Eff S ε α) : Prop := ∀ s, g (m.exec s).2 = g s

lemma Frames.bind {m : Eff S ε α} {f : α → Eff S ε β} (hm : Frames g m) (hf : ∀ a, Frames g (f a)) :
    Frames g (m >>= f) := by
  intro s
  have hs := hm s
  rw [exec_bind]
  rcases hms : m.exec s with ⟨r, t⟩
  rw [hms] at hs
  cases r with
  | error e => exact hs
  | ok a => exact (hf a t).trans hs

end Frame

variable {U : Type} {W : World U} {req : Request U} {policy : Policy} {s t : Server} {w : String}
  {limit minute : ℤ}

lemma frames_resolvePolicy : Frames Server.rateLimits (resolvePolicy W req) := by
  unfold resolvePolicy
  cases req.payload.forceViewerStaticFields with
  | some _ => exact fun _ => rfl
  | none =>
    refine Frames.bind ?_ fun policy => Frames.bind ?_ fun path =>
      Frames.bind (fun _ => rfl) fun _ _ => rfl
    · unfold getPolicy
      cases req.payload.version <;> exact fun _ => rfl
    · unfold triggerablePath
      split <;> exact fun _ => rfl

lemma frames_checkPermit : Frames Server.rateLimits (checkPermit W policy req) := by
  unfold checkPermit
  split
  · exact Frames.bind (fun _ => rfl) fun _ _ => rfl
  · exact fun _ => rfl

/-- What a request does to the counts: it is counted at most once, and if it gets a job without a
user it was below the limit of its workspace, and is counted. -/
structure Counted (W : World U) (req : Request U) (s : Server) (job : Bool) (t : Server) :
  Prop where
  once : t.rateLimits = s.rateLimits ∨ ∃ n, countOf s req.w req.minute ≤ n ∧
    t.rateLimits = (req.w, n, req.minute) :: s.rateLimits
  passes : job = true → req.authed = none → ∀ limit, W.publicAppRateLimit req.w = some limit →
    0 < limit → countOf s req.w req.minute < limit ∧
      t.rateLimits = (req.w, countOf s req.w req.minute + 1, req.minute) :: s.rateLimits

lemma countOf_congr (h : t.rateLimits = s.rateLimits) : countOf t = countOf s := by
  unfold countOf
  rw [h]

lemma Counted.congr {s' t' job} (h : Counted W req s job t) (hs : s'.rateLimits = s.rateLimits)
    (ht : t'.rateLimits = t.rateLimits) : Counted W req s' job t' := by
  refine ⟨?_, ?_⟩
  · rw [ht, hs, countOf_congr hs]
    exact h.once
  · rw [ht, hs, countOf_congr hs]
    exact h.passes

lemma counted_checkRateLimit {job : Bool}
    (hjob : job = true → ((checkRateLimit W policy req).exec s).1.isOk = true ∧
      (req.authed = none → policy.executionMode = .anonymous)) :
    Counted W req s job ((checkRateLimit W policy req).exec s).2 := by
  unfold checkRateLimit at hjob ⊢
  split at hjob
  · rename_i limit _ _ hlim
    split_ifs at hjob ⊢ with hpos
    · unfold checkAndIncrement at hjob ⊢
      rw [exec_onState] at hjob ⊢
      dsimp only at hjob ⊢
      split_ifs at hjob ⊢ with hfull
      · exact ⟨.inr ⟨_, le_rfl, rfl⟩, fun h => by cases (hjob h).1⟩
      · refine ⟨.inr ⟨_, (lt_add_one _).le, rfl⟩, fun _ _ limit' hlim' _ => ⟨?_, rfl⟩⟩
        cases hlim.symm.trans hlim'
        exact not_le.mp hfull
    · refine ⟨.inl rfl, fun _ _ limit' hlim' hpos' => ?_⟩
      cases hlim.symm.trans hlim'
      exact absurd hpos' hpos
  · rename_i hno
    exact ⟨.inl rfl, fun h hauthed limit hlim _ =>
      absurd hlim (hno limit ((hjob h).2 hauthed) hauthed)⟩

/-- A job without a user comes from an app in anonymous mode. -/
lemma anonymous_of_makeJob {triggerables job} (h : makeJob W req policy triggerables = .ok job)
    (hauthed : req.authed = none) : policy.executionMode = .anonymous := by
  obtain ⟨_, hdet, -⟩ := Lib.Except.bind_eq_ok.mp h
  unfold getOnBehalfDetailsFromPolicyAndAuthed at hdet
  rw [hauthed] at hdet
  cases hmode : policy.executionMode with
  | anonymous => rfl
  | publisher | viewer =>
    rw [hmode] at hdet
    cases hdet

lemma counted_executeComponent (s : Server) :
    Counted W req s ((executeComponent W req).exec s).1.isOk
    ((executeComponent W req).exec s).2 := by
  have hsame : ∀ {t}, t.rateLimits = s.rateLimits → Counted W req s false t := fun h =>
    ⟨.inl h, nofun⟩
  unfold executeComponent
  rw [exec_bind]
  cases checkFields req.payload with
  | error e => exact hsame rfl
  | ok _ =>
    show Counted W req s (Eff.exec (resolvePolicy W req >>= _) s).1.isOk
      (Eff.exec (resolvePolicy W req >>= _) s).2
    rw [exec_bind]
    have hres := @frames_resolvePolicy U W req s
    rcases hexec : (resolvePolicy W req).exec s with ⟨res, t⟩
    rw [hexec] at hres
    cases res with
    | error e => exact hsame hres
    | ok resolved =>
      dsimp only
      rw [exec_bind]
      rcases hlim : (checkRateLimit W resolved.1 req).exec t with ⟨res, t'⟩
      cases res with
      | error e =>
        have hcnt := @counted_checkRateLimit U W req resolved.1 t false nofun
        exact hcnt.congr hres.symm (by rw [hlim])
      | ok _ =>
        dsimp only
        have hrest : Frames Server.rateLimits (checkPermit W resolved.1 req >>= fun _ =>
            lift (makeJob W req resolved.1 resolved.2)) := frames_checkPermit.bind fun _ _ => rfl
        refine (counted_checkRateLimit fun h => ⟨by rw [hlim]; rfl, fun hauthed => ?_⟩).congr
          hres.symm ((hrest t').trans (by rw [hlim]))
        cases hjob : (Eff.exec (checkPermit W resolved.1 req >>= fun _ =>
            lift (makeJob W req resolved.1 resolved.2)) t').1 with
        | error e =>
          rw [hjob] at h
          cases h
        | ok job =>
          obtain ⟨_, _, -, hmake⟩ := exec_bind_ok hjob
          exact anonymous_of_makeJob hmake hauthed

/-! ### Sequences of requests -/

/-- The requests of a workspace without a user that got a job in a minute. -/
def granted (w : String) (minute : ℤ) (log : List (Request U × Except Error Job)) : ℕ :=
  log.countP fun e => e.1.w = w && e.1.authed.isNone && e.1.minute = minute && e.2.isOk

/-- The clock does not go back. -/
def InTime (s : History.State U) (req : Request U) : Prop := ∀ r ∈ s.requests, r.minute ≤ req.minute

/-- The jobs granted in the last minute are in the count of the workspace. -/
structure Inv (w : String) (limit : ℤ) (s : History.State U) : Prop where
  nonneg : ∀ m, 0 ≤ countOf s.server w m
  counted : ∀ m, (∀ r ∈ s.requests, r.minute ≤ m) → granted w m s.log ≤ countOf s.server w m
  below : ∀ m, granted w m s.log ≤ limit

lemma countOf_cons {n m : ℤ} (h : t.rateLimits = (req.w, n, req.minute) :: s.rateLimits) :
    countOf t w m = if w = req.w then if req.minute = m then n else 0 else countOf s w m := by
  unfold countOf
  rw [h, lookup_cons]
  by_cases hw : w = req.w
  · simp [hw]
  · simp [hw, beq_false_of_ne hw]

lemma granted_eq_zero {log : List (Request U × Except Error Job)} {m : ℤ}
    (h : ∀ r ∈ log.map Prod.fst, r.minute < m) : granted w m log = 0 := by
  refine countP_eq_zero.mpr fun e he => ?_
  have hlt := h e.1 (mem_map_of_mem he)
  simp [hlt.ne]

lemma inv_step {s s'} (hlim : W.publicAppRateLimit w = some limit) (hpos : 0 < limit)
    (hI : Inv w limit s) (hC : InTime s req) (h : step W s req = some s') : Inv w limit s' := by
  cases h
  obtain ⟨honce, hpass⟩ := @counted_executeComponent U W req s.server
  generalize (executeComponent W req).exec s.server = r at honce hpass ⊢
  have hnonneg : ∀ m, 0 ≤ countOf r.2 w m := by
    intro m
    rcases honce with hsame | ⟨n, hn, hcons⟩
    · rw [countOf_congr hsame]
      exact hI.nonneg m
    · rw [countOf_cons hcons]
      split_ifs with hw
      · exact (hw ▸ hI.nonneg req.minute).trans hn
      · exact le_rfl
      · exact hI.nonneg m
  have hgrow : countOf s.server w req.minute ≤ countOf r.2 w req.minute := by
    rcases honce with hsame | ⟨n, hn, hcons⟩
    · rw [countOf_congr hsame]
    · rw [countOf_cons hcons, if_pos rfl]
      split_ifs with hw
      · exact hw ▸ hn
      · exact le_rfl
  have hhead : granted w req.minute ((req, r.1) :: s.log) ≤ countOf r.2 w req.minute ∧
      granted w req.minute ((req, r.1) :: s.log) ≤ limit := by
    have hlast := hI.counted req.minute hC
    have hbelow := hI.below req.minute
    unfold granted at hlast hbelow ⊢
    rw [countP_cons]
    split_ifs with hjob
    · simp only [Bool.and_eq_true, decide_eq_true_eq, Option.isNone_iff_eq_none] at hjob
      obtain ⟨⟨⟨rfl, hauthed⟩, -⟩, hok⟩ := hjob
      obtain ⟨hlt, hcons⟩ := hpass hok hauthed limit hlim hpos
      rw [countOf_cons hcons, if_pos rfl, if_pos rfl]
      omega
    · omega
  have hother : ∀ m, req.minute ≠ m → granted w m ((req, r.1) :: s.log) = granted w m s.log :=
    fun m hm => by
    simp [granted, hm]
  refine ⟨hnonneg, fun m hm => ?_, fun m => ?_⟩
  · by_cases heq : req.minute = m
    · exact heq ▸ hhead.1
    · have hlt : req.minute < m := (hm req mem_cons_self).lt_of_ne heq
      rw [hother m heq, granted_eq_zero fun r hr => (hC r hr).trans_lt hlt]
      exact hnonneg m
  · by_cases heq : req.minute = m
    · exact heq ▸ hhead.2
    · rw [hother m heq]
      exact hI.below m

/-- **At most so many requests without a user get a job in a minute**, whatever apps of the
workspace they are for and in whatever order they come, while the clock does not go back. -/
theorem granted_le_limit {reqs : List (Request U)} {s : History.State U}
    (hlim : W.publicAppRateLimit w = some limit)
    (hpos : 0 < limit) (hC : Meets (step W) InTime reqs .start)
    (hrun : run (step W) reqs .start = some s) (minute : ℤ) : granted w minute s.log ≤ limit :=
  have hstart : Inv w limit (.start : History.State U) :=
    ⟨fun _ => le_rfl, fun _ _ => le_rfl, fun _ => hpos.le⟩
  (run_invariant (inv_step hlim hpos) hstart hC hrun).below minute

/-- One public app, and one request in a minute. -/
def publicApp : World Bool :=
  { twoApps with
    parsePolicy := fun _ => .ok
      { publisherPolicy "alice" "script/u/alice/wipe" with executionMode := .anonymous }
    publicAppRateLimit := fun _ => some 1 }

def visitorWipes : Request Bool := { aliceWipes with authed := none }

theorem second_visitor_refused : ∃ s, run (step publicApp)
    [visitorWipes, visitorWipes] .start = some s ∧
    s.log.map (fun e => e.2.isOk) = [false, true] ∧ granted "demo" 0 s.log ≤ (1 : ℤ) := by
  refine ⟨_, rfl, rfl, @granted_le_limit Bool publicApp "demo" 1 [visitorWipes, visitorWipes]
    _ rfl one_pos ?_ rfl 0⟩
  refine meets_cons (fun r hr => by cases hr) rfl (meets_cons (fun r hr => ?_) rfl trivial)
  cases mem_singleton.mp hr
  exact le_rfl

end Windmill.App.RateLimit
