import Windmill.Lib.Except
import Windmill.Lib.Opaque

/-! # Authentication of HTTP triggers

`authenticate_http_request` (`windmill-trigger-http/src/http_trigger_auth.rs`) decides whether a
request to an HTTP route is accepted. HMAC is an uninterpreted injective function of the algorithm,
the secret and the message. Its values are the opaque parts of texts. What the code reads with
libraries (JSON, RFC 3339, base64) is given by `Readers`, which copy parts but do not make any. -/

namespace Windmill.Trigger.HttpAuth

open Lib.Opaque

inductive HmacAlgorithm where
  | sha1
  | sha256
  | sha512
deriving DecidableEq

inductive Encoding where
  | base64
  | base64Uri
  | hex
deriving DecidableEq

inductive WebhookType where
  | github
  | slack
  | stripe
  | tikTok
  | twitch
  | zoom
  | custom
deriving DecidableEq

structure SignatureAuthenticationMethod where
  algorithm : HmacAlgorithm
  encoding : Encoding
  signatureHeaderName : String
  signaturePrefix : Option String

structure SignatureAuthentication where
  signatureProvider : WebhookType
  secretKey : String
  authenticationConfig : Option SignatureAuthenticationMethod

structure BasicAuthAuthentication where
  username : String
  password : String

structure ApiKeyAuthentication where
  apiKeyHeader : String
  apiKeySecret : String

/-- `AuthenticationMethod` of an HTTP trigger. -/
inductive AuthenticationMethod where
  | signature (auth : SignatureAuthentication)
  | basicAuth (auth : BasicAuthAuthentication)
  | apiKey (auth : ApiKeyAuthentication)

section

variable {M : Type}

/-- A text of a request or a response. -/
abbrev Txt (M : Type) := Text Encoding M

inductive AuthenticationError (M : Type) where
  | invalidTimestamp
  | timestampTooOldError
  | futureTimestampError
  | missingHeader (name : String)
  | invalidHeader (name : String)
  | invalidSignature
  | invalidPayload
  | invalidCustomConfig
  | invalidApiKey
  | unauthorizedBasicHttpAuth
  | invalidChallengeResponse (message : Txt M)

def AuthenticationError.message : AuthenticationError M → Txt M
  | .invalidTimestamp => ofString "failed to parse timestamp"
  | .timestampTooOldError => ofString "signature timestamp too old"
  | .futureTimestampError => ofString "signature timestamp too far in future"
  | .missingHeader name => ofString ("missing header " ++ name)
  | .invalidHeader name => ofString ("invalid header `" ++ name ++ "`")
  | .invalidSignature => ofString "signature invalid"
  | .invalidPayload => ofString "payload invalid"
  | .invalidCustomConfig => ofString "invalid custom config"
  | .invalidApiKey => ofString "Unauthorized"
  | .unauthorizedBasicHttpAuth => ofString "Unauthorized"
  | .invalidChallengeResponse message => ofString "invalid challenge response: " ++ message

inductive Response (M : Type) where
  | text (body : Txt M)
  | json (fields : List (String × Txt M))

def Response.values : Response M → List M
  | .text body => Lib.Opaque.parts body
  | .json fields => fields.flatMap fun f => Lib.Opaque.parts f.2

/-- A request. A header whose bytes are not visible ASCII has no text. -/
structure Request (M : Type) where
  headers : List (String × Option (Txt M))
  payload : Option (Txt M)

def Request.values (r : Request M) : List M :=
  r.headers.flatMap (fun h => (h.2.map Lib.Opaque.parts).getD []) ++
    (r.payload.map Lib.Opaque.parts).getD []

def sameName (a b : String) : Bool := a.toList.map Char.toLower == b.toList.map Char.toLower

def tryGetWebhookHeader (r : Request M) (name : String) : Except (AuthenticationError M) (Txt M) :=
  match r.headers.find? fun h => sameName h.1 name with
  | none => .error (.missingHeader name)
  | some (_, none) => .error (.invalidHeader name)
  | some (_, some value) => .ok value

/-- `HmacSha1`, `HmacSha256` and `HmacSha512`, taken to be injective. -/
structure Hmac (M : Type) where
  mac : HmacAlgorithm → String → Txt M → M
  injective : ∀ {a b : HmacAlgorithm} {k l : String} {t u : Txt M}, mac a k t = mac b l u → a = b ∧
    k = l ∧ t = u

structure ZoomChallengeResponse (M : Type) where
  plainToken : Txt M
  eventTs : ℕ
  event : Txt M

structure Readers (M : Type) where
  zoom : Txt M → Option (ZoomChallengeResponse M)
  twitch : Txt M → Except (Txt M) (Txt M)
  rfc3339 : Txt M → Option ℤ
  base64 : Txt M → Option (Txt M)
  zoom_parts : ∀ {body : Txt M} {z : ZoomChallengeResponse M}, zoom body = some z →
    ∀ m ∈ parts z.plainToken, m ∈ parts body
  twitch_parts : ∀ {body challenge : Txt M}, twitch body = .ok challenge → ∀ m ∈ parts challenge,
    m ∈ parts body
  twitch_error_parts : ∀ {body message : Txt M}, twitch body = .error message → ∀ m ∈ parts message,
    m ∈ parts body

/-! ### Timestamps -/

def maxTimestampAgeSecs : ℤ := 300

def digitOf : Sym Encoding M → Option ℕ
  | .chr c => if c.isDigit then some (c.toNat - '0'.toNat) else none
  | .part _ _ => none

def digitsFrom (n : ℕ) : Txt M → Option ℕ
  | [] => some n
  | s :: t => match digitOf s with
    | some d => digitsFrom (10 * n + d) t
    | none => none

def digits : Txt M → Option ℤ
  | [] => none
  | s :: t => (digitsFrom 0 (s :: t)).map fun n => (n : ℤ)

def parseI64 (t : Txt M) : Option ℤ :=
  let value := match t with
    | .chr '-' :: ds => (digits ds).map fun n => -n
    | .chr '+' :: ds => digits ds
    | ds => digits ds
  value.filter fun n => decide (-(2 ^ 63) ≤ n) && decide (n < 2 ^ 63)

def wrapI64 (n : ℤ) : ℤ := (n + 2 ^ 63) % 2 ^ 64 - 2 ^ 63

def checkAge (age diff : ℤ) : Except (AuthenticationError M) Unit :=
  if age < diff then .error .timestampTooOldError
  else if diff < -age then .error .futureTimestampError
  else .ok ()

def validateUnixTimestamp (now : ℤ) (timestamp : Txt M) : Except (AuthenticationError M) Unit :=
  match parseI64 timestamp with
  | none => .error .invalidTimestamp
  | some ts => checkAge maxTimestampAgeSecs (wrapI64 (now - ts))

/-! ### Signatures -/

structure SignatureAuthenticationData (M : Type) where
  signedPayload : Txt M
  headerKeyValue : Txt M
  signaturePrefix : Option String
  algorithmToUse : HmacAlgorithm
  headerKeyEncoding : Encoding

variable (H : Hmac M)

def encodedSignature (algorithm : HmacAlgorithm) (encoding : Encoding) (secret : String)
    (payload : Txt M) : Txt M :=
  [.part encoding (H.mac algorithm secret payload)]

def expectedSignature (data : SignatureAuthenticationData M) (secret : String) : Txt M :=
  match data.signaturePrefix with
  | some p => ofString p ++ encodedSignature H data.algorithmToUse data.headerKeyEncoding secret
      data.signedPayload
  | none => encodedSignature H data.algorithmToUse data.headerKeyEncoding secret data.signedPayload

variable [DecidableEq M]

def verifyHmacSignature (data : SignatureAuthenticationData M) (secret : String) :
    Except (AuthenticationError M) Unit :=
  if expectedSignature H data secret = data.headerKeyValue then .ok () else .error .invalidSignature

def parseSignature (signature : Txt M) (key : String) : Option (Txt M) :=
  let fields := (split ',' signature).filterMap fun field => match split '=' field with
    | k :: v :: _ => some (k, v)
    | _ => none
  (fields.reverse.find? fun f => decide (f.1 = ofString key)).map Prod.snd

/-! ### Providers -/

structure WebhookHandler (M : Type) where
  handleChallengeRequest : Request M → String → Txt M →
    Except (AuthenticationError M) (Option (Response M))
  getHmacAuthenticationData : Request M → Txt M →
    Except (AuthenticationError M) (SignatureAuthenticationData M)
  validateTimestamp : Request M → ℤ → Except (AuthenticationError M) Unit

def noChallenge (_ : Request M) (_ : String) (_ : Txt M) :
    Except (AuthenticationError M) (Option (Response M)) := .ok none

def timestampHeader (name : String) (r : Request M) (now : ℤ) :
    Except (AuthenticationError M) Unit := do
  let ts ← tryGetWebhookHeader r name
  validateUnixTimestamp now ts

def versionedPayload (signatureHeader timestampHeader : String) (r : Request M) (payload : Txt M) :
    Except (AuthenticationError M) (SignatureAuthenticationData M) := do
  let signature ← tryGetWebhookHeader r signatureHeader
  let timestamp ← tryGetWebhookHeader r timestampHeader
  return ⟨ofString "v0:" ++ timestamp ++ ofString ":" ++ payload, signature, some "v0=",
    .sha256, .hex⟩

def signatureField (header key : String) (missing : AuthenticationError M) (r : Request M) :
    Except (AuthenticationError M) (Txt M) := do
  let signature ← tryGetWebhookHeader r header
  match parseSignature signature key with
  | some v => return v
  | none => throw missing

/-- The signed text `timestamp.payload`, where timestamp and signature are fields of one header. -/
def fieldsHandler (header key : String) : WebhookHandler M where
  handleChallengeRequest := noChallenge
  getHmacAuthenticationData r payload := do
    let timestamp ← signatureField header "t" .invalidTimestamp r
    let signature ← signatureField header key .invalidSignature r
    return ⟨timestamp ++ ofString "." ++ payload, signature, none, .sha256, .hex⟩
  validateTimestamp r now := do
    let timestamp ← signatureField header "t" .invalidTimestamp r
    validateUnixTimestamp now timestamp

def github : WebhookHandler M where
  handleChallengeRequest := noChallenge
  getHmacAuthenticationData r payload := do
    let signature ← tryGetWebhookHeader r "X-Hub-Signature-256"
    return ⟨payload, signature, some "sha256=", .sha256, .hex⟩
  validateTimestamp _ _ := .ok ()

def slack : WebhookHandler M where
  handleChallengeRequest := noChallenge
  getHmacAuthenticationData := versionedPayload "X-Slack-Signature" "X-Slack-Request-Timestamp"
  validateTimestamp := timestampHeader "X-Slack-Request-Timestamp"

def stripe : WebhookHandler M := fieldsHandler "STRIPE-SIGNATURE" "v1"

def tikTok : WebhookHandler M := fieldsHandler "TikTok-Signature" "s"

def twitchData (r : Request M) (payload : Txt M) : Except (AuthenticationError M)
    (SignatureAuthenticationData M) := do
  let signature ← tryGetWebhookHeader r "Twitch-Eventsub-Message-Signature"
  let messageId ← tryGetWebhookHeader r "Twitch-Eventsub-Message-Id"
  let timestamp ← tryGetWebhookHeader r "Twitch-Eventsub-Message-Timestamp"
  return ⟨messageId ++ timestamp ++ payload, signature, some "sha256=", .sha256, .hex⟩

variable (R : Readers M)

def twitch : WebhookHandler M where
  handleChallengeRequest r secret payload := do
    let data ← twitchData r payload
    verifyHmacSignature H data secret
    let messageType ← tryGetWebhookHeader r "Twitch-Eventsub-Message-Type"
    if messageType = ofString "webhook_callback_verification" then
      match R.twitch payload with
      | .error message => throw (.invalidChallengeResponse (ofString "Twitch :" ++ message))
      | .ok challenge => return some (.text challenge)
    else return none
  getHmacAuthenticationData := twitchData
  validateTimestamp r now := do
    let timestamp ← tryGetWebhookHeader r "Twitch-Eventsub-Message-Timestamp"
    match R.rfc3339 timestamp with
    | none => throw .invalidTimestamp
    | some ts => checkAge 600 (now - ts)

def zoom : WebhookHandler M where
  handleChallengeRequest _ secret payload := match R.zoom payload with
    | none => .ok none
    | some body =>
      if body.event = ofString "endpoint.url_validation" then
        .ok (some (.json [("plainToken", body.plainToken),
          ("encryptedToken", encodedSignature H .sha256 .hex secret body.plainToken)]))
      else .ok none
  getHmacAuthenticationData := versionedPayload "x-zm-signature" "x-zm-request-timestamp"
  validateTimestamp := timestampHeader "x-zm-request-timestamp"

def getWebhookHandler : WebhookType → Option (WebhookHandler M)
  | .github => some github
  | .slack => some slack
  | .stripe => some stripe
  | .tikTok => some tikTok
  | .twitch => some (twitch H R)
  | .zoom => some (zoom H R)
  | .custom => none

/-! ### The decision -/

def customData (config : Option SignatureAuthenticationMethod) (r : Request M) (payload : Txt M) :
    Except (AuthenticationError M) (SignatureAuthenticationData M) := do
  match config with
  | none => throw .invalidCustomConfig
  | some c =>
    let signature ← tryGetWebhookHeader r c.signatureHeaderName
    return ⟨payload, signature, c.signaturePrefix, c.algorithm, c.encoding⟩

variable (auth : SignatureAuthentication)

def authenticationData (r : Request M) (payload : Txt M) :
    Except (AuthenticationError M) (SignatureAuthenticationData M) :=
  match getWebhookHandler H R auth.signatureProvider with
  | some handler => handler.getHmacAuthenticationData r payload
  | none => customData auth.authenticationConfig r payload

def challengeResponse (r : Request M) (payload : Txt M) : Except (AuthenticationError M)
    (Option (Response M)) :=
  match getWebhookHandler H R auth.signatureProvider with
  | some handler => handler.handleChallengeRequest r auth.secretKey payload
  | none => .ok none

def checkTimestamp (r : Request M) (now : ℤ) : Except (AuthenticationError M) Unit :=
  match getWebhookHandler H R auth.signatureProvider with
  | some handler => handler.validateTimestamp r now
  | none => .ok ()

def authenticateSignature (r : Request M) (now : ℤ) : Except (AuthenticationError M)
    (Option (Response M)) := do
  match r.payload with
  | none => throw .invalidPayload
  | some payload =>
    match ← challengeResponse H R auth r payload with
    | some response => return some response
    | none =>
      checkTimestamp H R auth r now
      let data ← authenticationData H R auth r payload
      verifyHmacSignature H data auth.secretKey
      return none

def authenticateApiKey (auth : ApiKeyAuthentication) (r : Request M) :
    Except (AuthenticationError M) (Option (Response M)) :=
  match tryGetWebhookHeader r auth.apiKeyHeader with
  | .error _ => .error .invalidApiKey
  | .ok key => if key = ofString auth.apiKeySecret then .ok none else .error .invalidApiKey

def authenticateBasic (auth : BasicAuthAuthentication) (r : Request M) :
    Except (AuthenticationError M) (Option (Response M)) :=
  match tryGetWebhookHeader r "Authorization" with
  | .error _ => .error .unauthorizedBasicHttpAuth
  | .ok header =>
    match split ' ' header with
    | kind :: encoded :: _ =>
      if kind = ofString "Basic" then
        match (R.base64 encoded).map (split ':') with
        | some [username, password] =>
          if username = ofString auth.username ∧ password = ofString auth.password then .ok none
          else .error .unauthorizedBasicHttpAuth
        | _ => .error .unauthorizedBasicHttpAuth
      else .error .unauthorizedBasicHttpAuth
    | _ => .error .unauthorizedBasicHttpAuth

/-- `authenticate_http_request`: `None` lets the request through, `Some` answers a challenge. -/
def authenticateHttpRequest (method : AuthenticationMethod) (r : Request M) (now : ℤ) :
    Except (AuthenticationError M) (Option (Response M)) :=
  match method with
  | .signature auth => authenticateSignature H R auth r now
  | .apiKey auth => authenticateApiKey auth r
  | .basicAuth auth => authenticateBasic R auth r

end

end Windmill.Trigger.HttpAuth
