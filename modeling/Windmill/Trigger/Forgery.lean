import Windmill.Trigger.HttpAuth
import Windmill.Lib.Run

/-! # Forging signatures through the endpoint

A client that does not know the secret of a route sends requests and reads the answers. It can only
copy a signature: the values of HMAC under the secret that its requests hold are among those that
earlier answers gave away (`Sends`). Every answer repeats what the request brought, except the
answer to a Zoom challenge, which signs a token that the client has chosen. -/

namespace Windmill.Trigger.Forgery

open Lib.Except Lib.Opaque Lib.Run HttpAuth List

section

variable {M : Type} {t : Txt M} {a : HmacAlgorithm}

/-! ### What a request and its answer give away -/

def From (r : Request M) (t : Txt M) : Prop := ∀ m ∈ parts t, m ∈ r.values

def Quotes (r : Request M) : AuthenticationError M → Prop
  | .invalidChallengeResponse message => From r message
  | _ => True

lemma Quotes.from {r : Request M} {e : AuthenticationError M} (h : Quotes r e) :
    From r e.message := by
  intro m hm
  cases e with
  | invalidChallengeResponse message =>
    simp only [AuthenticationError.message, parts_append, parts_ofString, nil_append] at hm
    exact h m hm
  | _ => simp only [AuthenticationError.message, parts_ofString, not_mem_nil] at hm

section Parts

variable {r : Request M} {now : ℤ} {payload : Txt M} {name header key : String}

lemma tryGetWebhookHeader_ends : Ends (Quotes r) (From r) (tryGetWebhookHeader r name) := by
  unfold tryGetWebhookHeader
  split
  · trivial
  · trivial
  · rename_i header value hfind
    exact fun m hm => mem_append_left _ (mem_flatMap.mpr ⟨_, mem_of_find?_eq_some hfind, hm⟩)

lemma checkAge_ends {age diff : ℤ} : Ends (Quotes r) (fun _ => True) (checkAge age diff) := by
  unfold checkAge
  split_ifs <;> trivial

lemma validateUnixTimestamp_ends : Ends (Quotes r) (fun _ => True)
    (validateUnixTimestamp now t) := by
  unfold validateUnixTimestamp
  split
  · trivial
  · exact checkAge_ends

lemma versionedPayload_ends : Ends (Quotes r)
    (fun data => From r data.headerKeyValue ∧ ∃ timestamp, data.signedPayload = ofString "v0:" ++
    timestamp ++ ofString ":" ++ payload) (versionedPayload header name r payload) :=
  tryGetWebhookHeader_ends.bind fun _ hsig => tryGetWebhookHeader_ends.bind fun timestamp _ =>
    ⟨hsig, timestamp, rfl⟩

lemma twitchData_ends : Ends (Quotes r) (fun data => From r data.headerKeyValue)
    (twitchData r payload) :=
  tryGetWebhookHeader_ends.bind fun _ hsig => tryGetWebhookHeader_ends.bind fun _ _ =>
    tryGetWebhookHeader_ends.bind fun _ _ => hsig

variable [DecidableEq M]

lemma parseSignature_parts {signature v : Txt M} (h : parseSignature signature key = some v) {m : M}
    (hm : m ∈ parts v) : m ∈ parts signature := by
  obtain ⟨⟨k, v'⟩, hfind, rfl⟩ := Option.map_eq_some_iff.mp h
  have hmem := mem_reverse.mp (mem_of_find?_eq_some hfind)
  obtain ⟨field, hfld, hkv⟩ := mem_filterMap.mp hmem
  split at hkv
  · rename_i k' v'' rest hsplit
    cases hkv
    have hpc : v' ∈ split '=' field := by
      rw [hsplit]
      exact mem_cons_of_mem _ mem_cons_self
    exact mem_parts_of_mem_split hfld (mem_parts_of_mem_split hpc hm)
  · cases hkv

lemma signatureField_ends {missing} (hmiss : Quotes r missing) :
    Ends (Quotes r) (From r) (signatureField header key missing r) := by
  refine tryGetWebhookHeader_ends.bind fun signature hsig => ?_
  cases hp : parseSignature signature key with
  | none => exact hmiss
  | some v => exact fun m hm => hsig m (parseSignature_parts hp hm)

end Parts

variable {H : Hmac M} [DecidableEq M] {R : Readers M} {auth : SignatureAuthentication}
  {r : Request M} {payload : Txt M} {now : ℤ}

lemma checkTimestamp_ends : Ends (Quotes r) (fun _ => True) (checkTimestamp H R auth r now) := by
  unfold checkTimestamp
  cases auth.signatureProvider with
  | github | custom => trivial
  | slack | zoom => exact tryGetWebhookHeader_ends.bind fun _ _ => validateUnixTimestamp_ends
  | stripe | tikTok => exact (signatureField_ends (by trivial)).bind fun _ _ =>
      validateUnixTimestamp_ends
  | twitch =>
    refine tryGetWebhookHeader_ends.bind fun ts _ => ?_
    cases R.rfc3339 ts with
    | none => trivial
    | some t => exact checkAge_ends

lemma authenticationData_ends : Ends (Quotes r) (fun data => From r data.headerKeyValue)
    (authenticationData H R auth r payload) := by
  unfold authenticationData
  cases auth.signatureProvider with
  | github => exact tryGetWebhookHeader_ends.bind fun _ hsig => hsig
  | slack | zoom => exact versionedPayload_ends.imp fun _ h => h.1
  | stripe | tikTok =>
    exact (signatureField_ends (by trivial)).bind fun _ _ =>
      (signatureField_ends (by trivial)).bind fun _ hsig => hsig
  | twitch => exact twitchData_ends
  | custom =>
    cases auth.authenticationConfig with
    | none => trivial
    | some c => exact tryGetWebhookHeader_ends.bind fun _ hsig => hsig

lemma verifyHmacSignature_ends {data : SignatureAuthenticationData M} {secret : String} :
    Ends (Quotes r)
    (fun _ => H.mac data.algorithmToUse secret data.signedPayload ∈ parts data.headerKeyValue)
    (verifyHmacSignature H data secret) := by
  unfold verifyHmacSignature
  split_ifs with heq
  · rw [← heq]
    unfold expectedSignature encodedSignature
    cases data.signaturePrefix with
    | none => exact mem_singleton_self _
    | some p =>
      rw [parts_append]
      exact mem_append_right _ (mem_singleton_self _)
  · trivial

/-- What a request is let through with: the algorithm and the text whose signature it brings. -/
def acceptedMessage (H : Hmac M) (R : Readers M) (auth : SignatureAuthentication) (r : Request M)
    (now : ℤ) : Option (HmacAlgorithm × Txt M) :=
  match authenticateSignature H R auth r now, r.payload with
  | .ok none, some payload => match authenticationData H R auth r payload with
    | .ok data => some (data.algorithmToUse, data.signedPayload)
    | .error _ => none
  | _, _ => none

/-- **A request that is let through holds the HMAC of what it signs.** -/
theorem acceptedMessage_some (h : acceptedMessage H R auth r now = some (a, t)) :
    H.mac a auth.secretKey t ∈ r.values ∧ ∃ payload data, authenticationData H R auth r payload =
    .ok data ∧ data.algorithmToUse = a ∧ data.signedPayload = t := by
  unfold acceptedMessage at h
  split at h
  · rename_i payload hok hpay
    split at h
    · rename_i data hdata
      cases h
      unfold authenticateSignature at hok
      rw [hpay] at hok
      obtain ⟨challenge, -, hok⟩ := bind_eq_ok.mp hok
      cases challenge with
      | some response => cases pure_eq_ok.mp hok
      | none =>
        obtain ⟨-, -, hok⟩ := bind_eq_ok.mp hok
        obtain ⟨data', hdata', hok⟩ := bind_eq_ok.mp hok
        obtain ⟨⟨⟩, hver, -⟩ := bind_eq_ok.mp hok
        cases hdata.symm.trans hdata'
        have hmac := (verifyHmacSignature_ends (r := r)).of_ok hver
        exact ⟨authenticationData_ends.of_ok hdata _ hmac, payload, data, hdata, rfl, rfl⟩
    · cases h
  · cases h

def answerValues : Except (AuthenticationError M) (Option (Response M)) → List M
  | .error e => parts e.message
  | .ok none => []
  | .ok (some response) => response.values

def zoomToken (R : Readers M) (r : Request M) : Option (Txt M) :=
  match r.payload.bind R.zoom with
  | some body => if body.event = ofString "endpoint.url_validation" then some body.plainToken
      else none
  | none => none

/-- The value stands in the request, or it is the signature of a Zoom token. -/
def Gives (H : Hmac M) (R : Readers M) (auth : SignatureAuthentication) (r : Request M)
    (m : M) : Prop :=
  m ∈ r.values ∨ ∃ token, auth.signatureProvider = .zoom ∧ zoomToken R r = some token ∧
    m = H.mac .sha256 auth.secretKey token

def AnswerGives (H : Hmac M) (R : Readers M) (auth : SignatureAuthentication) (r : Request M) :
    Option (Response M) → Prop
  | none => True
  | some response => ∀ m ∈ response.values, Gives H R auth r m

lemma challengeResponse_ends (hpay : r.payload = some payload) :
    Ends (Quotes r) (AnswerGives H R auth r) (challengeResponse H R auth r payload) := by
  have hbody : ∀ {m : M}, m ∈ parts payload → m ∈ r.values :=
    fun hm => mem_append_right _ (by rw [hpay]; exact hm)
  unfold challengeResponse
  cases hp : auth.signatureProvider with
  | twitch =>
    refine twitchData_ends.bind fun data _ => verifyHmacSignature_ends.bind fun _ _ =>
      tryGetWebhookHeader_ends.bind fun kind _ => ?_
    split_ifs
    · cases ht : R.twitch payload with
      | ok challenge => exact fun m hm => .inl (hbody (R.twitch_parts ht m hm))
      | error message =>
        intro m hm
        rw [parts_append, parts_ofString, nil_append] at hm
        exact hbody (R.twitch_error_parts ht m hm)
    · trivial
  | zoom =>
    show Ends _ _ ((zoom H R).handleChallengeRequest r auth.secretKey payload)
    dsimp only [zoom]
    cases hz : R.zoom payload with
    | none => trivial
    | some body =>
      dsimp only
      split_ifs with hevent
      · intro m hm
        rcases mem_flatMap.mp hm with ⟨field, hfld, hm⟩
        rcases mem_cons.mp hfld with rfl | hfld
        · exact .inl (hbody (R.zoom_parts hz m hm))
        · cases mem_singleton.mp hfld
          refine .inr ⟨body.plainToken, hp, ?_, mem_singleton.mp hm⟩
          rw [zoomToken, hpay, Option.bind_some, hz]
          exact if_pos hevent
      · trivial
  | _ => trivial

lemma authenticateSignature_ends : Ends (Quotes r) (AnswerGives H R auth r)
    (authenticateSignature H R auth r now) := by
  unfold authenticateSignature
  cases hpay : r.payload with
  | none => trivial
  | some payload =>
    refine (challengeResponse_ends hpay).bind fun challenge hchal => ?_
    cases challenge with
    | some response => exact hchal
    | none => exact checkTimestamp_ends.bind fun _ _ => authenticationData_ends.bind fun _ _ =>
        verifyHmacSignature_ends.bind fun _ _ => trivial

/-- **What an answer gives away**: what the request brought, and the signature of a Zoom token. -/
theorem authenticateSignature_values {m : M}
    (hm : m ∈ answerValues (authenticateSignature H R auth r now)) : Gives H R auth r m := by
  have hends : Ends (Quotes r) (AnswerGives H R auth r) (authenticateSignature H R auth r now) :=
    authenticateSignature_ends
  revert hm hends
  cases authenticateSignature H R auth r now with
  | error e => exact fun hm hquotes => .inl (Quotes.from hquotes m hm)
  | ok answer =>
    cases answer with
    | none => exact fun hm => absurd hm not_mem_nil
    | some response => exact fun hm hgives => hgives m hm

/-! ### Sessions -/

/-- What has happened at a route: the values that the client has read, the messages that the sender
has signed, and those with whose signatures requests were let through. -/
structure Session (M : Type) where
  learned : List M
  signed : List (HmacAlgorithm × Txt M)
  accepted : List (HmacAlgorithm × Txt M)
deriving DecidableEq

def Session.start : Session M := ⟨[], [], []⟩

/-- The sender signs a message or makes a request; the client makes a request and reads the answer.
-/
inductive Action (M : Type) where
  | sign (algorithm : HmacAlgorithm) (message : Txt M)
  | deliver (r : Request M) (now : ℤ)
  | send (r : Request M) (now : ℤ)

/-- A request of the attacker, or a signature of the owner. -/
def step (H : Hmac M) (R : Readers M) (auth : SignatureAuthentication) (s : Session M) :
    Action M → Option (Session M)
  | .sign algorithm message => some { s with signed := (algorithm, message) :: s.signed }
  | .deliver r now => some { s with accepted := (acceptedMessage H R auth r now).toList ++
      s.accepted }
  | .send r now => some { s with
      accepted := (acceptedMessage H R auth r now).toList ++ s.accepted
      learned := answerValues (authenticateHttpRequest H R (.signature auth) r now) ++ s.learned }

/-- The sender has signed what it sends; the client does not know the secret and copies what it has
read. -/
def Sends (H : Hmac M) (auth : SignatureAuthentication) (s : Session M) : Action M → Prop
  | .sign _ _ => True
  | .deliver r _ => ∀ a t, H.mac a auth.secretKey t ∈ r.values → (a, t) ∈ s.signed
  | .send r _ => ∀ a t, H.mac a auth.secretKey t ∈ r.values → H.mac a auth.secretKey t ∈ s.learned

def SignsRequest (H : Hmac M) (R : Readers M) (auth : SignatureAuthentication) (a : HmacAlgorithm)
    (t : Txt M) : Prop :=
  ∃ r payload data, authenticationData H R auth r payload = .ok data ∧ data.algorithmToUse = a ∧
    data.signedPayload = t

/-- Signatures are not forged: what is let through was signed by the sender, and no answer gives
away a signature that a request could use. -/
structure Secure (H : Hmac M) (R : Readers M) (auth : SignatureAuthentication) (s : Session M) :
  Prop where
  accepted : ∀ p ∈ s.accepted, p ∈ s.signed
  learned : ∀ a t, H.mac a auth.secretKey t ∈ s.learned → ¬SignsRequest H R auth a t

def Versioned (t : Txt M) : Prop :=
  ∃ timestamp body, t = ofString "v0:" ++ timestamp ++ ofString ":" ++ body

/-- A challenge of the client at a Zoom route does not have a versioned text for its token. -/
def PlainTokens (R : Readers M) (auth : SignatureAuthentication) : Action M → Prop
  | .send r _ => auth.signatureProvider = .zoom → ∀ token, zoomToken R r = some token →
  ¬Versioned token
  | _ => True

lemma SignsRequest.versioned (hzoom : auth.signatureProvider = .zoom)
    (h : SignsRequest H R auth a t) : Versioned t := by
  obtain ⟨r, payload, data, hdata, -, rfl⟩ := h
  unfold authenticationData at hdata
  rw [hzoom] at hdata
  obtain ⟨-, timestamp, heq⟩ := versionedPayload_ends.of_ok hdata
  exact ⟨timestamp, payload, heq⟩

/-- The client has read signatures of Zoom tokens only. -/
structure Ignorant (H : Hmac M) (auth : SignatureAuthentication) (s : Session M) : Prop where
  accepted : ∀ p ∈ s.accepted, p ∈ s.signed
  learned : ∀ a t, H.mac a auth.secretKey t ∈ s.learned → auth.signatureProvider = .zoom ∧
    ¬Versioned t

lemma Ignorant.secure {s} (h : Ignorant H auth s) : Secure H R auth s where
  accepted := h.accepted
  learned a t hm hsigns := (h.learned a t hm).2 (hsigns.versioned (h.learned a t hm).1)

lemma ignorant_step {s s' x} (hI : Ignorant H auth s) (hC : Sends H auth s x ∧ PlainTokens R auth x)
    (h : step H R auth s x = some s') : Ignorant H auth s' := by
  obtain ⟨hsends, hplain⟩ := hC
  cases x with
  | sign algorithm message =>
    cases h
    exact ⟨fun p hp => mem_cons_of_mem _ (hI.accepted p hp), hI.learned⟩
  | deliver r now =>
    cases h
    refine ⟨fun p hp => ?_, hI.learned⟩
    rcases mem_append.mp hp with hp | hp
    · obtain ⟨hm, -⟩ := acceptedMessage_some (Option.mem_toList.mp hp)
      exact hsends _ _ hm
    · exact hI.accepted p hp
  | send r now =>
    cases h
    refine ⟨fun p hp => ?_, fun a t hm => ?_⟩
    · rcases mem_append.mp hp with hp | hp
      · -- the request would have to hold a signature that the client has read
        obtain ⟨hm, hsigns⟩ := acceptedMessage_some (Option.mem_toList.mp hp)
        obtain ⟨hzoom, hnot⟩ := hI.learned _ _ (hsends _ _ hm)
        obtain ⟨payload, data, hdata⟩ := hsigns
        exact absurd (SignsRequest.versioned hzoom ⟨r, payload, data, hdata⟩) hnot
      · exact hI.accepted p hp
    · rcases mem_append.mp hm with hm | hm
      · rcases authenticateSignature_values hm with hm | ⟨token, hzoom, htok, heq⟩
        · exact hI.learned a t (hsends a t hm)
        · obtain ⟨-, -, rfl⟩ := H.injective heq
          exact ⟨hzoom, hplain hzoom t htok⟩
      · exact hI.learned a t hm

end

/-! ### A Zoom route -/

/-- The values of a free HMAC, and the texts they are of. -/
inductive Term where
  | nil
  | chr (c : Char) (t : Term)
  | part (e : Encoding) (m t : Term)
  | mac (a : HmacAlgorithm) (k : String) (t : Term)
deriving DecidableEq

def Term.ofText : Txt Term → Term
  | [] => .nil
  | .chr c :: t => .chr c (ofText t)
  | .part e m :: t => .part e m (ofText t)

lemma Term.ofText_injective : ∀ {t u}, ofText t = ofText u → t = u
  | [], [], _ => rfl
  | .chr c :: t, .chr d :: u, h => by
    have hcd := Term.chr.inj h
    rw [hcd.1, ofText_injective hcd.2]
  | .part e m :: t, .part f n :: u, h => by
    have hef := Term.part.inj h
    rw [hef.1, hef.2.1, ofText_injective hef.2.2]

def freeHmac : Hmac Term where
  mac a k t := .mac a k (.ofText t)
  injective h := by
    obtain ⟨ha, hk, ht⟩ := Term.mac.inj h
    exact ⟨ha, hk, Term.ofText_injective ht⟩

def challengeOpen : Txt Term :=
  ofString
    "\x7b\"event\":\"endpoint.url_validation\",\"event_ts\":0,\"payload\":\x7b\"plainToken\":\""

def challengeClose : Txt Term := ofString "\"\x7d\x7d"

def challengeReaders : Readers Term where
  zoom body :=
    let token := (body.drop challengeOpen.length).take
      (body.length - challengeOpen.length - challengeClose.length)
    if body = challengeOpen ++ token ++ challengeClose ∧ .chr '"' ∉ token ∧ .chr '\\' ∉ token then
      some ⟨token, 0, ofString "endpoint.url_validation"⟩
    else none
  twitch _ := .error []
  rfc3339 _ := none
  base64 _ := none
  zoom_parts {body z} h m hm := by
    dsimp only at h
    split_ifs at h with hbody
    cases h
    rw [hbody.1, parts_append, parts_append]
    exact List.mem_append_left _ (List.mem_append_right _ hm)
  twitch_parts h := by cases h
  twitch_error_parts {body message} h m hm := by
    cases h
    cases hm

def zoomRoute : SignatureAuthentication := ⟨.zoom, "secret", none⟩

def challengeRequest (token : String) : Request Term :=
  ⟨[], some (challengeOpen ++ ofString token ++ challengeClose)⟩

def signedRequest (text timestamp body : String) : Request Term :=
  ⟨[("x-zm-signature", some (ofString "v0=" ++ encodedSignature freeHmac .sha256 .hex "secret"
    (ofString text))), ("x-zm-request-timestamp", some (ofString timestamp))], some (ofString body)⟩

lemma challengeRequest_values (token : String) : (challengeRequest token).values = [] := by
  simp [challengeRequest, Request.values, challengeOpen, challengeClose]

lemma signedRequest_values (text timestamp body : String) :
    (signedRequest text timestamp body).values =
    [freeHmac.mac .sha256 "secret" (ofString text)] := by
  simp [signedRequest, Request.values, encodedSignature]

/-! ### The theorem -/

/-- **In every session in which no challenge of the client has a versioned token, no signature is
forged.** -/
theorem signatures_not_forged {M : Type} [DecidableEq M] {H : Hmac M} {R : Readers M}
    {auth : SignatureAuthentication} {actions : List (Action M)} {s : Session M}
    (hC : Meets (step H R auth) (fun s x => Sends H auth s x ∧ PlainTokens R auth x) actions .start)
    (hrun : run (step H R auth) actions .start = some s) : Secure H R auth s :=
  have hstart : Ignorant H auth (Session.start : Session M) :=
    ⟨nofun, nofun⟩
  (run_invariant ignorant_step hstart hC hrun).secure

def honestSession : List (Action Term) :=
  [.sign .sha256 (ofString "v0:1700000000:x"),
    .deliver (signedRequest "v0:1700000000:x" "1700000000" "x") 1700000010,
    .send (challengeRequest "qgg8vlvZRS6UYooatFL8Aw") 1700000020]

theorem honest_session_not_forged :
    ∃ s, run (step freeHmac challengeReaders zoomRoute) honestSession .start = some s ∧
    s.accepted = [(.sha256, ofString "v0:1700000000:x")] ∧
    Secure freeHmac challengeReaders zoomRoute s := by
  have hrun : run (step freeHmac challengeReaders zoomRoute) honestSession .start = some
      ⟨[freeHmac.mac .sha256 "secret" (ofString "qgg8vlvZRS6UYooatFL8Aw")],
        [(.sha256, ofString "v0:1700000000:x")], [(.sha256, ofString "v0:1700000000:x")]⟩ := by
    decide +kernel
  refine ⟨_, hrun, rfl, signatures_not_forged ?_ hrun⟩
  refine meets_cons ⟨trivial, trivial⟩ rfl
    (meets_cons ⟨?_, trivial⟩ rfl (meets_cons ⟨?_, ?_⟩ rfl trivial))
  · intro a t hm
    rw [signedRequest_values, mem_singleton] at hm
    obtain ⟨rfl, -, rfl⟩ := freeHmac.injective hm
    exact mem_singleton_self _
  · intro a t hm
    simp [challengeRequest_values] at hm
  · rintro - token htok ⟨timestamp, body, rfl⟩
    have hread : zoomToken challengeReaders (challengeRequest "qgg8vlvZRS6UYooatFL8Aw") =
        some (ofString "qgg8vlvZRS6UYooatFL8Aw") := by decide +kernel
    cases hread.symm.trans htok

def forgedSession : List (Action Term) :=
  [.send (challengeRequest "v0:1700000000:x") 1700000010,
    .send (signedRequest "v0:1700000000:x" "1700000000" "x") 1700000020]

theorem forged_zoom_signature : ∃ s, Meets (step freeHmac challengeReaders zoomRoute)
    (Sends freeHmac zoomRoute)
      forgedSession .start ∧ run (step freeHmac challengeReaders zoomRoute)
      forgedSession .start = some s ∧
    s.signed = [] ∧ s.accepted = [(.sha256, ofString "v0:1700000000:x")] ∧
    ¬Secure freeHmac challengeReaders zoomRoute s := by
  have hfirst : step freeHmac challengeReaders zoomRoute .start
      (.send (challengeRequest "v0:1700000000:x") 1700000010) = some
        ⟨[freeHmac.mac .sha256 "secret" (ofString "v0:1700000000:x")], [], []⟩ := by
    decide +kernel
  have hsnd : step freeHmac challengeReaders zoomRoute
      ⟨[freeHmac.mac .sha256 "secret" (ofString "v0:1700000000:x")], [], []⟩
      (.send (signedRequest "v0:1700000000:x" "1700000000" "x") 1700000020) = some
        ⟨[freeHmac.mac .sha256 "secret" (ofString "v0:1700000000:x")], [],
          [(.sha256, ofString "v0:1700000000:x")]⟩ := by
    decide +kernel
  have hrun : run (step freeHmac challengeReaders zoomRoute) forgedSession .start = some
      ⟨[freeHmac.mac .sha256 "secret" (ofString "v0:1700000000:x")], [],
        [(.sha256, ofString "v0:1700000000:x")]⟩ := by
    rw [forgedSession, run_of_step hfirst]
    rfl
  refine ⟨_, meets_cons ?_ hfirst (meets_cons ?_ hsnd trivial), hrun, rfl, rfl, fun hsecure => ?_⟩
  · intro a t hm
    simp [challengeRequest_values] at hm
  · intro a t hm
    rwa [signedRequest_values] at hm
  · cases hsecure.accepted _ (mem_singleton_self _)

end Windmill.Trigger.Forgery
