import Windmill.Trigger.Forgery

/-! # Requests with valid credentials

`Valid` says that a header is a way to write the right credentials, `Understood` that the splitting
finds them: a password with a colon falls into too many pieces, and of several `v1` entries only the
last is compared. -/

namespace Windmill.Trigger.Credentials

open Lib.Opaque HttpAuth List
open Forgery (Term freeHmac challengeReaders)

variable {M : Type} {key : String}

/-- A request as it is sent, with any text as the value of a header. -/
structure Sent (M : Type) where
  headers : List (String × Txt M)
  payload : Option (Txt M)

def visible : Sym Encoding M → Bool
  | .chr c => (32 ≤ c.toNat && c.toNat < 127) || c == '\t'
  | .part _ _ => true

def toStr (value : Txt M) : Option (Txt M) := if value.all visible then some value else none

def Sent.received (s : Sent M) : Request M := ⟨s.headers.map fun h => (h.1, toStr h.2), s.payload⟩

def Sent.header (s : Sent M) (name : String) : Option (Txt M) :=
  (s.headers.find? fun h => sameName h.1 name).map Prod.snd

/-- An entry of a Stripe signature; the timestamp is the same in all its entries. -/
inductive Entry (M : Type) where
  | timestamp
  | v1 (signature : Txt M)
  | other (text : Txt M)

def field (key : String) (value : Txt M) : Txt M := ofString key ++ .chr '=' :: value

namespace Entry

def text (timestamp : Txt M) : Entry M → Txt M
  | .timestamp => field "t" timestamp
  | .v1 signature => field "v1" signature
  | .other text => text

def signature? : Entry M → Option (Txt M)
  | .v1 signature => some signature
  | _ => none

def timestamp? (timestamp : Txt M) : Entry M → Option (Txt M)
  | .timestamp => some timestamp
  | _ => none

/-- Values have no separators, and other entries are neither timestamps nor signatures. -/
def Proper (timestamp : Txt M) (e : Entry M) : Prop :=
  .chr ',' ∉ e.text timestamp ∧ match e with
    | .timestamp => .chr '=' ∉ timestamp
    | .v1 signature => .chr '=' ∉ signature
    | .other text => ∀ value, text ≠ field "t" value ∧ text ≠ field "v1" value

end Entry

inductive Credential (M : Type) where
  | basic (scheme : String) (gap : ℕ) (encoded : Txt M)
  | apiKey (key : String)
  | stripe (timestamp : Txt M) (entries : List (Entry M))

def Credential.value : Credential M → Txt M
  | .basic scheme gap encoded => ofString scheme ++
  .chr ' ' :: (List.replicate gap (.chr ' ') ++ encoded)
  | .apiKey key => ofString key
  | .stripe timestamp entries => [.chr ','].intercalate (entries.map (Entry.text timestamp))

def headerName : AuthenticationMethod → String
  | .basicAuth _ => "Authorization"
  | .apiKey auth => auth.apiKeyHeader
  | .signature _ => "STRIPE-SIGNATURE"

def rightSignature (H : Hmac M) (auth : SignatureAuthentication) (timestamp body : Txt M) : Txt M :=
  encodedSignature H .sha256 .hex auth.secretKey (timestamp ++ ofString "." ++ body)

/-- The header is a way to write the credentials of the trigger. The scheme of Basic is written in
any case, with any number of spaces after it (RFC 7617). -/
def Valid (H : Hmac M) (R : Readers M) (now : ℤ) (payload : Option (Txt M)) :
    AuthenticationMethod → Credential M → Prop
  | .basicAuth auth, .basic scheme _ encoded => scheme.toList.map Char.toLower = "basic".toList ∧
  .chr ' ' ∉ encoded ∧
      R.base64 encoded = some (ofString auth.username ++ .chr ':' :: ofString auth.password) ∧
      ':' ∉ auth.username.toList
  | .apiKey auth, .apiKey key => key = auth.apiKeySecret
  | .signature auth, .stripe timestamp entries => auth.signatureProvider = .stripe ∧
      (∀ e ∈ entries, e.Proper timestamp) ∧ .timestamp ∈ entries ∧
      (∃ ts, parseI64 timestamp = some ts ∧ |now - ts| ≤ maxTimestampAgeSecs) ∧
      ∃ body, payload = some body ∧ .v1 (rightSignature H auth timestamp body) ∈ entries
  | _, _ => False

/-- The credential is written as it is read. -/
def Understood (H : Hmac M) (payload : Option (Txt M)) : AuthenticationMethod → Credential M → Prop
  | .basicAuth auth, .basic scheme gap _ => scheme = "Basic" ∧ gap = 0 ∧ ':' ∉ auth.password.toList
  | .signature auth, .stripe timestamp entries =>
      (entries.filterMap Entry.signature?).getLast? = payload.map (rightSignature H auth timestamp)
  | _, _ => True

/-! ### Headers -/

lemma tryGetWebhookHeader_received {s : Sent M} {name : String} {value : Txt M}
    (h : s.header name = some value) :
    tryGetWebhookHeader s.received name = if value.all visible then .ok value else .error
    (.invalidHeader name) := by
  obtain ⟨⟨name', value⟩, hfind, rfl⟩ := Option.map_eq_some_iff.mp h
  have hrecv : s.received.headers.find? (fun h => sameName h.1 name) =
      some (name', toStr value) := by
    rw [Sent.received, List.find?_map]
    exact congrArg (Option.map _) hfind
  rw [tryGetWebhookHeader, hrecv, toStr]
  split_ifs <;> rfl

variable [DecidableEq M]

/-! ### Basic -/

section

variable {R : Readers M} {auth : BasicAuthAuthentication} {r : Request M}

lemma authenticateBasic_iff {header kind encoded rest}
    (hhead : tryGetWebhookHeader r "Authorization" = .ok header)
    (hsplit : split ' ' header = kind :: encoded :: rest) : authenticateBasic R auth r = .ok none ↔
      kind = ofString "Basic" ∧
        (R.base64 encoded).map (split ':') = some
        [ofString auth.username, ofString auth.password] := by
  simp only [authenticateBasic, hhead, hsplit]
  split_ifs with hkind
  · split
    · rename_i username password hread
      rw [hread]
      split_ifs with h <;> simp_all
    · rename_i hno
      exact ⟨nofun, fun h => absurd h.2 (hno _ _)⟩
  · simp [hkind]

lemma basic_iff {scheme} {gap : ℕ} {encoded} (hemp : ∀ t, R.base64 [] = some t → t = [])
    (hhead : tryGetWebhookHeader r "Authorization" = .ok
    (Credential.basic scheme gap encoded).value)
    (hsch : scheme.toList.map Char.toLower = "basic".toList) (hsp : .chr ' ' ∉ encoded)
    (henc : R.base64 encoded = some (ofString auth.username ++ .chr ':' :: ofString auth.password))
    (huser : ':' ∉ auth.username.toList) :
    authenticateBasic R auth r = .ok none ↔ scheme = "Basic" ∧ gap = 0 ∧
    ':' ∉ auth.password.toList := by
  have hword : ' ' ∉ scheme.toList := fun h =>
    absurd (hsch ▸ mem_map_of_mem h : Char.toLower ' ' ∈ "basic".toList) (by decide)
  have hsplit := @split_append _ M _ _ ' ' _ (replicate gap (.chr ' ') ++ encoded)
    (mt chr_mem_ofString.mp hword)
  cases gap with
  | zero =>
    rw [replicate_zero, nil_append, split_of_notMem hsp] at hsplit
    have hpw : split ':' (ofString auth.password : Txt M) = [ofString auth.password] ↔
        ':' ∉ auth.password.toList :=
      ⟨fun h => mt chr_mem_ofString.mpr (notMem_of_split h), fun h =>
        split_of_notMem (mt chr_mem_ofString.mp h)⟩
    rw [authenticateBasic_iff hhead hsplit, henc, ofString_inj]
    simp [split_append (mt chr_mem_ofString.mp huser), hpw]
  | succ gap =>
    have hgap := @split_append _ M _ _ ' ' [] (replicate gap (.chr ' ') ++ encoded) not_mem_nil
    rw [replicate_succ, cons_append, show split ' ' (.chr ' ' :: _) = _ from hgap] at hsplit
    rw [authenticateBasic_iff hhead hsplit]
    refine ⟨fun ⟨_, hread⟩ => ?_, fun h => by cases h.2.1⟩
    obtain ⟨t, ht, hcol⟩ := Option.map_eq_some_iff.mp hread
    rw [hemp t ht] at hcol
    simp [split] at hcol

end

/-! ### Stripe -/

def entryValue (key : String) (piece : Txt M) : Option (Txt M) :=
  match split '=' piece with
  | k :: v :: _ => if k = ofString key then some v else none
  | _ => none

lemma parseSignature_intercalate {texts : List (Txt M)} (hne : texts ≠ [])
    (hcom : ∀ t ∈ texts, .chr ',' ∉ t) : parseSignature ([.chr ','].intercalate texts) key =
    (texts.filterMap (entryValue key)).getLast? := by
  rw [parseSignature, split_eq_splitOn, splitOn_intercalate _ hcom hne, getLast?_eq_head?_reverse,
    ← filterMap_reverse, ← filterMap_reverse]
  induction texts.reverse with
  | nil => rfl
  | cons piece pieces ih =>
    rw [filterMap_cons, filterMap_cons, entryValue]
    rcases split '=' piece with _ | ⟨k, _ | ⟨v, rest⟩⟩
    · exact ih
    · exact ih
    · by_cases hkey : k = ofString key
      · simp [hkey]
      · simpa [hkey] using ih

lemma entryValue_field {key' : String} {value : Txt M} (hkey : '=' ∉ key.toList)
    (hval : .chr '=' ∉ value) :
    entryValue key' (field key value) = if key = key' then some value else none := by
  rw [entryValue, field, split_append (mt chr_mem_ofString.mp hkey), split_of_notMem hval]
  simp only [ofString_inj]

lemma entryValue_other {text : Txt M} (h : ∀ value, text ≠ field key value) :
    entryValue key text = none := by
  rw [entryValue]
  split
  · rename_i k v rest hsplit
    refine if_neg fun hkey => h ([.chr '='].intercalate (v :: rest)) ?_
    rw [← @intercalate_splitOn _ text _ _ (.chr '='), ← split_eq_splitOn, hsplit, hkey]
    rfl
  · rfl

lemma entryValue_text {timestamp : Txt M} {e : Entry M} (h : e.Proper timestamp) :
    entryValue "t" (e.text timestamp) = e.timestamp? timestamp ∧ entryValue "v1"
    (e.text timestamp) = e.signature? := by
  cases e with
  | timestamp | v1 signature =>
    exact ⟨entryValue_field (by decide) h.2, entryValue_field (by decide) h.2⟩
  | other text => exact ⟨entryValue_other fun value => (h.2 value).1, entryValue_other fun value =>
      (h.2 value).2⟩

lemma stripe_iff {H : Hmac M} {R : Readers M} {auth : SignatureAuthentication} {r : Request M}
    {now ts : ℤ} {timestamp body : Txt M} {entries : List (Entry M)}
    (hhead : tryGetWebhookHeader r "STRIPE-SIGNATURE" = .ok
    (Credential.stripe timestamp entries).value)
    (hprov : auth.signatureProvider = .stripe) (hprop : ∀ e ∈ entries, e.Proper timestamp)
    (htimestamp : .timestamp ∈ entries) (hts : parseI64 timestamp = some ts)
    (hage : |now - ts| ≤ maxTimestampAgeSecs)
    (hbody : r.payload = some body) (hv1 : .v1 (rightSignature H auth timestamp body) ∈ entries) :
    authenticateSignature H R auth r now = .ok none ↔
      (entries.filterMap Entry.signature?).getLast? = some
      (rightSignature H auth timestamp body) := by
  have hparse : ∀ {key read},
      (∀ e ∈ entries, entryValue key (e.text timestamp) = read e) →
        parseSignature (Credential.stripe timestamp entries).value key =
        (entries.filterMap read).getLast? := by
    intro key read hread
    have hne : entries.map (Entry.text timestamp) ≠ [] := by simpa using ne_nil_of_mem htimestamp
    rw [Credential.value, parseSignature_intercalate hne (by simpa using fun e he =>
      (hprop e he).1), filterMap_map]
    exact congrArg _ (filterMap_congr hread)
  have hlast : ∀ {read : Entry M → Option (Txt M)} {e : Entry M} {value : Txt M}, e ∈ entries →
    read e = some value →
      ∃ last, (entries.filterMap read).getLast? = some last ∧ ∃ e ∈ entries,
      read e = some last := by
    intro read e value he hread
    have hmem : value ∈ entries.filterMap read := mem_filterMap.mpr ⟨e, he, hread⟩
    have hsome := getLast?_eq_some_getLast (ne_nil_of_mem hmem)
    exact ⟨_, hsome, mem_filterMap.mp (mem_of_getLast? hsome)⟩
  have ht : parseSignature (Credential.stripe timestamp entries).value "t" = some timestamp := by
    rw [hparse fun e he => (entryValue_text (hprop e he)).1]
    obtain ⟨last, hsome, e, -, hread⟩ := @hlast (Entry.timestamp? timestamp) _ _ htimestamp rfl
    cases e <;> simp_all [Entry.timestamp?]
  obtain ⟨last, hsome, -⟩ := @hlast Entry.signature? _ _ hv1 rfl
  have hs := hparse fun e he => (entryValue_text (hprop e he)).2
  have hclock : validateUnixTimestamp now timestamp = .ok () := by
    have hwrap : wrapI64 (now - ts) = now - ts := by
      rw [abs_le] at hage
      simp only [wrapI64, maxTimestampAgeSecs] at hage ⊢
      omega
    rw [validateUnixTimestamp, hts]
    dsimp only
    rw [hwrap, checkAge, if_neg (not_lt.mpr (abs_le.mp hage).2),
      if_neg (not_lt.mpr (abs_le.mp hage).1)]
  have htime : ∀ e, signatureField "STRIPE-SIGNATURE" "t" e r = .ok timestamp := fun e => by
    simp only [signatureField, hhead, bind, Except.bind, ht]
    rfl
  have hfld : ∀ e, signatureField "STRIPE-SIGNATURE" "v1" e r = .ok last := fun e => by
    simp only [signatureField, hhead, bind, Except.bind, hs, hsome]
    rfl
  rw [authenticateSignature, hbody, hsome]
  simp only [challengeResponse, checkTimestamp, authenticationData, getWebhookHandler, hprov,
    stripe, fieldsHandler, noChallenge, htime, hfld, hclock, bind, Except.bind, verifyHmacSignature]
  rw [Option.some_inj, eq_comm (a := last)]
  simp only [pure, Except.pure, expectedSignature, rightSignature]
  split_ifs with hright <;> simp [hright, -append_assoc]

/-- **Valid credentials are accepted exactly when they are understood**: the header is visible
ASCII, Basic is written so with one space and a password without a colon, and the right signature is
the last `v1` entry. -/
theorem accepted_iff_understood {H : Hmac M} {R : Readers M} {method : AuthenticationMethod}
    {s : Sent M} {now : ℤ} {credential : Credential M} (hempty : ∀ t, R.base64 [] = some t → t = [])
    (hheader : s.header (headerName method) = some credential.value)
    (hvalid : Valid H R now s.payload method credential) :
    authenticateHttpRequest H R method s.received now = .ok none ↔
      credential.value.all visible ∧ Understood H s.payload method credential := by
  have hget := tryGetWebhookHeader_received hheader
  by_cases hvis : credential.value.all visible
  · rw [if_pos hvis] at hget
    rw [and_iff_right hvis]
    cases method <;> cases credential <;> try exact hvalid.elim
    · obtain ⟨hprov, hprop, htime, ⟨ts, hts, hage⟩, body, hbody, hv1⟩ := hvalid
      rw [Understood, hbody]
      exact stripe_iff hget hprov hprop htime hts hage hbody hv1
    · exact basic_iff hempty hget hvalid.1 hvalid.2.1 hvalid.2.2.1 hvalid.2.2.2
    · cases hvalid
      simp_all [authenticateHttpRequest, authenticateApiKey, Understood, Credential.value,
        headerName]
  · rw [if_neg hvis] at hget
    refine ⟨fun h => ?_, fun h => absurd h.1 hvis⟩
    cases method <;> cases credential <;> try exact hvalid.elim
    · obtain ⟨hprov, -, -, -, body, hbody, -⟩ := hvalid
      have hread : ∀ e, signatureField "STRIPE-SIGNATURE" "t" e s.received =
          .error (.invalidHeader "STRIPE-SIGNATURE") :=
        fun e => congrArg (· >>= _) hget
      have hpay : s.received.payload = some body := hbody
      simp [authenticateHttpRequest, authenticateSignature, challengeResponse, checkTimestamp,
        getWebhookHandler, stripe,
        fieldsHandler, noChallenge, hprov, hpay, hread, bind, Except.bind] at h
    all_goals simp_all [authenticateHttpRequest, authenticateBasic, authenticateApiKey, headerName]

def rolled (signatures : List (Txt Term)) : Credential Term :=
  .stripe (ofString "1700000000") (.timestamp :: signatures.map .v1)

def stripeRoute : SignatureAuthentication := ⟨.stripe, "secret", none⟩

def signedWith (secret : String) : Txt Term :=
  rightSignature freeHmac ⟨.stripe, secret, none⟩ (ofString "1700000000") (ofString "x")

def sentWith (credential : Credential Term) : Sent Term :=
  ⟨[("Stripe-Signature", credential.value)], some (ofString "x")⟩

lemma valid_rolled {first second} (h : "secret" ∈ [first, second]) :
    Valid freeHmac challengeReaders 1700000000 (some (ofString "x")) (.signature stripeRoute)
      (rolled [signedWith first, signedWith second]) := by
  refine ⟨rfl, ?_, mem_cons_self, ⟨1700000000, by decide, by decide⟩, _, rfl, ?_⟩
  · simp [Entry.Proper, Entry.text, field, signedWith, rightSignature, encodedSignature, ofString]
  · simp only [mem_cons, not_mem_nil, or_false] at h
    rcases h with rfl | rfl <;> simp [signedWith, rightSignature, stripeRoute]

theorem understood_first_secret : authenticateHttpRequest freeHmac challengeReaders
    (.signature stripeRoute)
    (sentWith (rolled [signedWith "new", signedWith "secret"])).received 1700000000 = .ok none := by
  have hiff := accepted_iff_understood
    (s := sentWith (rolled [signedWith "new", signedWith "secret"]))
    (fun _ h => (by cases h)) rfl (valid_rolled (by decide))
  exact hiff.mpr ⟨by decide, rfl⟩

/-- The right signature is not the last of two. -/
theorem rolled_secret_refused : Valid freeHmac challengeReaders 1700000000 (some (ofString "x"))
      (.signature stripeRoute) (rolled [signedWith "secret", signedWith "new"]) ∧
    authenticateHttpRequest freeHmac challengeReaders (.signature stripeRoute)
      (sentWith (rolled [signedWith "secret", signedWith "new"])).received 1700000000 =
      .error .invalidSignature :=
  ⟨valid_rolled (by decide), by rfl⟩

end Windmill.Trigger.Credentials
