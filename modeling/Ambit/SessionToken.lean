import Ambit.Lib.BitString
import Ambit.Lib.JsonDecimal
import Ambit.Lib.JsonFields
import Ambit.OperatorDirectory
import Ambit.SamplePlatform
import Ambit.Server

/-! `sessionToken.ts`: the signed tokens of operator sessions, and what their verification accepts. -/

namespace Ambit

/-! ## What the sources take from the platform -/

/-- A value as `JSON.parse` makes it: no number of it is NaN. -/
inductive JsonValue where
  | null
  | boolean (b : Bool)
  | number (n : JsNumber) (h : n ≠ .nan)
  | string (s : String)
  | array (items : List JsonValue)
  | object (members : List (String × JsonValue))

/-- The errors that the functions below can meet. -/
inductive JsError where
  | syntaxError
  | typeError
  deriving DecidableEq

theorem JsNumber.finite_ne_nan (q : ℚ) : JsNumber.finite q ≠ .nan := nofun

namespace JsonValue

def finite (q : ℚ) : JsonValue := .number (.finite q) (JsNumber.finite_ne_nan q)

/-- `typeof value === "object"` -/
def isObject : JsonValue → Bool
  | .null | .array _ | .object _ => true
  | _ => false

def isNull : JsonValue → Bool
  | .null => true
  | _ => false

/-- `value.key`: an error for `null`, and `undefined` where there is no such member. -/
def property (value : JsonValue) (key : String) : Except JsError (Option JsonValue) :=
  match value with
  | .null => .error .typeError
  | .object members => .ok (members.lookup key)
  | _ => .ok none

end JsonValue

structure SessionPayload where
  username : String
  issuedAt : Int
  expiresAt : JsNumber

/-- The payload as a value of JSON: a number that is not finite becomes `null`. -/
def SessionPayload.json (payload : SessionPayload) : JsonValue :=
  .object [("username", .string payload.username), ("issuedAt", .finite payload.issuedAt),
    ("expiresAt", match payload.expiresAt with
      | .finite q => .finite q
      | _ => .null)]

structure SessionPlatform extends Platform where
  /-- `createHmac("sha256", secret).update(text).digest("base64url")` -/
  hmacSha256 : String → String → String
  /-- `buffer.toString("base64url")` -/
  toBase64url : List UInt8 → String
  /-- `Buffer.from(text, "base64url")` -/
  fromBase64url : String → List UInt8
  /-- `Buffer.from(JSON.stringify(payload), "utf8")` -/
  stringifyPayload : SessionPayload → List UInt8
  /-- `JSON.parse(buffer.toString("utf8"))` -/
  parseJson : List UInt8 → Except JsError JsonValue

structure SessionTokenConfig where
  signingSecret : String
  ttlMs : Option JsNumber := none

def defaultSessionTtlMs : JsNumber := .finite (60 * 60 * 1000)

def SessionTokenConfig.ttl (config : SessionTokenConfig) : JsNumber :=
  config.ttlMs.getD defaultSessionTtlMs

/-- `now.getTime() + ttlMs`, a sum of doubles. -/
def SessionTokenConfig.expiresAt (config : SessionTokenConfig) (now : Int) : JsNumber :=
  (JsNumber.finite now).add config.ttl

variable (p : SessionPlatform)

/-! ## Signing and verification -/

def sign (payloadB64 secret : String) : String := p.hmacSha256 secret payloadB64

/-- The payload that `createSessionToken` signs. -/
def payloadB64Of (username : String) (config : SessionTokenConfig) (now : Int) : String :=
  p.toBase64url (p.stringifyPayload
    { username, issuedAt := now, expiresAt := config.expiresAt now })

def createSessionToken (username : String) (config : SessionTokenConfig) (now : Int) : String :=
  let payloadB64 := payloadB64Of p username config now
  payloadB64 ++ "." ++ sign p payloadB64 config.signingSecret

inductive SessionInvalid where
  | malformed
  | invalidSignature
  | expired
  deriving DecidableEq

inductive SessionVerifyResult where
  | valid (username : String)
  | invalid (reason : SessionInvalid)
  deriving DecidableEq

/-- `token.split(".")` -/
def splitAtDots (token : String) : List String := (token.toList.splitOn '.').map String.ofList

/-- The type checks of `verifySessionToken` on a parsed payload, and its expiry. -/
def verifyPayload (payload : JsonValue) (now : Int) : Except JsError SessionVerifyResult :=
  if ¬ payload.isObject ∨ payload.isNull then return .invalid .malformed
  else do
    match ← payload.property "username" with
    | some (.string username) =>
      match ← payload.property "expiresAt" with
      | some (.number expiresAt _) =>
        if expiresAt.le (.finite now) then return .invalid .expired
        else return .valid username
      | _ => return .invalid .malformed
    | _ => return .invalid .malformed

def verifySessionToken (token : String) (config : SessionTokenConfig) (now : Int) :
    Except JsError SessionVerifyResult :=
  match splitAtDots token with
  | [payloadB64, signature] =>
    if timingSafeStringEqual p.toPlatform signature (sign p payloadB64 config.signingSecret) then
      match p.parseJson (p.fromBase64url payloadB64) with
      | .ok payload => verifyPayload payload now
      | .error _ => return .invalid .malformed
    else return .invalid .invalidSignature
  | _ => return .invalid .malformed

/-! ## What a payload has to say -/

/-- What is assumed of the platform: texts in base64url have no dot in them and are read back, a
payload is read back from its JSON, and SHA-256 has no collisions. -/
structure SessionPlatform.Sound : Prop where
  hmac_dotless : ∀ secret text, '.' ∉ (p.hmacSha256 secret text).toList
  base64url_dotless : ∀ bytes, '.' ∉ (p.toBase64url bytes).toList
  base64url_reads : ∀ bytes, p.fromBase64url (p.toBase64url bytes) = bytes
  json_reads : ∀ payload, p.parseJson (p.stringifyPayload payload) = .ok payload.json
  collisionFree : Function.Injective p.sha256

/-- The payload names the user, and expires after `now`. -/
def JsonValue.Grants (payload : JsonValue) (username : String) (now : Int) : Prop :=
  payload.property "username" = .ok (some (.string username)) ∧
    ∃ expiresAt h, payload.property "expiresAt" = .ok (some (.number expiresAt h)) ∧
      (JsNumber.finite now).lt expiresAt = true

variable {p} {payload : JsonValue} {username token : String} {config : SessionTokenConfig} {now : Int}

theorem JsNumber.le_eq_false_iff {n : JsNumber} (h : n ≠ .nan) :
    n.le (.finite now) = false ↔ (JsNumber.finite now).lt n = true := by
  cases n with
  | finite q =>
    show Decidable.decide (q ≤ now) = false ↔ Decidable.decide ((now : ℚ) < q) = true
    rw [decide_eq_false_iff_not, decide_eq_true_eq, not_le]
  | infinity => exact iff_of_true rfl rfl
  | negInfinity => exact iff_of_false Bool.noConfusion Bool.noConfusion
  | nan => exact absurd rfl h

theorem verifyPayload_object (members : List (String × JsonValue)) :
    verifyPayload (.object members) now =
      match members.lookup "username" with
      | some (.string username) =>
        match members.lookup "expiresAt" with
        | some (.number expiresAt _) =>
          if expiresAt.le (.finite now) then .ok (.invalid .expired) else .ok (.valid username)
        | _ => .ok (.invalid .malformed)
      | _ => .ok (.invalid .malformed) := rfl

/-- What the checks of a payload come to: it is valid for the user that it grants, and otherwise it is
invalid. -/
theorem verifyPayload_cases (payload : JsonValue) (now : Int) :
    (∃ username, verifyPayload payload now = .ok (.valid username) ∧ payload.Grants username now) ∨
    ∃ reason, verifyPayload payload now = .ok (.invalid reason) := by
  cases payload with
  | null | boolean | number | string | array => exact .inr ⟨.malformed, rfl⟩
  | object members =>
    rw [verifyPayload_object]
    split
    · next username hname =>
      split
      · next expiresAt h hexpires =>
        split
        · exact .inr ⟨_, rfl⟩
        · next hle =>
          refine .inl ⟨username, rfl, congrArg _ hname, expiresAt, h, congrArg _ hexpires, ?_⟩
          exact (JsNumber.le_eq_false_iff h).mp (Bool.not_eq_true _ ▸ hle)
      · exact .inr ⟨_, rfl⟩
    · exact .inr ⟨_, rfl⟩

/-! ## The parts of a token -/

theorem splitAtDots_append {left right : String} (hleft : '.' ∉ left.toList)
    (hright : '.' ∉ right.toList) : splitAtDots (left ++ "." ++ right) = [left, right] := by
  have hlist : (left ++ "." ++ right).toList = left.toList ++ '.' :: right.toList := by
    rw [String.toList_append, String.toList_append, List.append_assoc]
    rfl
  rw [splitAtDots, hlist, List.splitOn_append_cons_self_of_not_mem hleft,
    List.splitOn_eq_singleton hright, List.map_cons, List.map_singleton, String.ofList_toList,
    String.ofList_toList]

theorem eq_append_of_splitAtDots {left right : String} (h : splitAtDots token = [left, right]) :
    token = left ++ "." ++ right := by
  obtain ⟨l, rest, hsplit, rfl, hrest⟩ := List.map_eq_cons_iff.mp h
  obtain ⟨r, rest, rfl, rfl, hnil⟩ := List.map_eq_cons_iff.mp hrest
  obtain rfl := List.map_eq_nil_iff.mp hnil
  have htoken : List.intercalate ['.'] (token.toList.splitOn '.') = token.toList :=
    List.intercalate_splitOn '.'
  rw [hsplit] at htoken
  rw [← String.toList_inj, ← htoken]
  simp [List.intercalate]

/-! ## Tokens -/

/-- The token is signed with the secret, and its payload grants a session to the user. -/
structure SignedFor (p : SessionPlatform) (token secret username payloadB64 : String) (now : Int) :
    Prop where
  signed : token = payloadB64 ++ "." ++ p.hmacSha256 secret payloadB64
  grants : ∃ payload, p.parseJson (p.fromBase64url payloadB64) = .ok payload ∧
    payload.Grants username now

/-- A token is accepted for what it is signed for, or it is invalid; no check of it throws. -/
theorem verifySessionToken_cases (hp : p.Sound) (token : String) (config : SessionTokenConfig)
    (now : Int) :
    (∃ username payloadB64, verifySessionToken p token config now = .ok (.valid username) ∧
      SignedFor p token config.signingSecret username payloadB64 now) ∨
    ∃ reason, verifySessionToken p token config now = .ok (.invalid reason) := by
  unfold verifySessionToken
  split
  · next payloadB64 signature hsplit =>
    split
    · next hequal =>
      have hsignature : signature = sign p payloadB64 config.signingSecret :=
        hp.collisionFree (of_decide_eq_true hequal)
      have htoken := eq_append_of_splitAtDots hsplit
      rw [hsignature] at htoken
      split
      · next payload hpayload =>
        obtain ⟨username, hvalid, hgrants⟩ | ⟨reason, hinvalid⟩ := verifyPayload_cases payload now
        · exact .inl ⟨username, payloadB64, hvalid, htoken, payload, hpayload, hgrants⟩
        · exact .inr ⟨reason, hinvalid⟩
      · exact .inr ⟨_, rfl⟩
    · exact .inr ⟨_, rfl⟩
  · exact .inr ⟨_, rfl⟩

/-- What is checked of a token that was created is the payload that it was created for. -/
theorem verifySessionToken_createSessionToken (hp : p.Sound) (username : String) (t₀ t : Int) :
    verifySessionToken p (createSessionToken p username config t₀) config t =
      verifyPayload (SessionPayload.json ⟨username, t₀, config.expiresAt t₀⟩) t := by
  have hsplit : splitAtDots (createSessionToken p username config t₀) =
      [payloadB64Of p username config t₀,
        sign p (payloadB64Of p username config t₀) config.signingSecret] :=
    splitAtDots_append (hp.base64url_dotless _) (hp.hmac_dotless _ _)
  have hequal : ∀ s, timingSafeStringEqual p.toPlatform s s = true := fun s => decide_eq_true rfl
  have hpayload : p.parseJson (p.fromBase64url (payloadB64Of p username config t₀)) =
      .ok (SessionPayload.json ⟨username, t₀, config.expiresAt t₀⟩) := by
    rw [payloadB64Of, hp.base64url_reads, hp.json_reads]
  unfold verifySessionToken
  rw [hsplit]
  dsimp only
  rw [if_pos (hequal _), hpayload]

/-- A token that was created is valid for its user until it expires. -/
theorem verifySessionToken_created (hp : p.Sound) {t₀ : Int} {expires : ℚ}
    (hexpires : config.expiresAt t₀ = .finite expires) (username : String) (t : Int) :
    verifySessionToken p (createSessionToken p username config t₀) config t =
      if (t : ℚ) < expires then .ok (.valid username) else .ok (.invalid .expired) := by
  rw [verifySessionToken_createSessionToken hp, hexpires]
  show (if (JsNumber.finite expires).le (.finite t) then _ else _) = _
  by_cases hlt : (t : ℚ) < expires
  · have hle : (JsNumber.finite expires).le (.finite t) = false :=
      (JsNumber.le_eq_false_iff (JsNumber.finite_ne_nan _)).mpr (decide_eq_true hlt)
    rw [if_pos hlt, hle]
    rfl
  · have hle : (JsNumber.finite expires).le (.finite t) = true := decide_eq_true (not_lt.mp hlt)
    rw [if_neg hlt, hle]
    rfl

/-- JSON keeps no expiry that is not finite: such tokens are never valid. -/
theorem verifySessionToken_not_finite (hp : p.Sound) {t₀ : Int}
    (hexpires : ∀ expires, config.expiresAt t₀ ≠ .finite expires) (username : String) (t : Int) :
    verifySessionToken p (createSessionToken p username config t₀) config t =
      .ok (.invalid .malformed) := by
  rw [verifySessionToken_createSessionToken hp]
  cases hconfig : config.expiresAt t₀ with
  | finite expires => exact absurd hconfig (hexpires expires)
  | infinity | negInfinity | nan => rfl

/-- The sum is exact for a time to live of whole milliseconds. -/
theorem SessionTokenConfig.expiresAt_whole {ttl t₀ : ℤ} (httl : config.ttl = .finite ttl)
    (hsize : |t₀ + ttl| ≤ 2 ^ 53) : config.expiresAt t₀ = .finite (t₀ + ttl) := by
  rw [expiresAt, httl]
  show JsNumber.ofExact (t₀ + ttl) = _
  rw [← Int.cast_add, JsNumber.ofExact_intCast hsize]

/-- What the tokens of a secret come to: those that are created verify for their user until the double
sum of their time and the time to live, which is exact for whole milliseconds; any string at all is
verified without an error, and is accepted only where it carries the signature of a payload that grants
the session, which is none that was signed if the string was never created. -/
structure SessionTokensExact (p : SessionPlatform) (config : SessionTokenConfig) : Prop where
  created : ∀ t₀ expires, config.expiresAt t₀ = .finite expires → ∀ username t,
    verifySessionToken p (createSessionToken p username config t₀) config t =
      if (t : ℚ) < expires then .ok (.valid username) else .ok (.invalid .expired)
  created_whole : ∀ ttl t₀ : ℤ, config.ttl = .finite ttl → |t₀ + ttl| ≤ 2 ^ 53 → ∀ username t,
    verifySessionToken p (createSessionToken p username config t₀) config t =
      if t < t₀ + ttl then .ok (.valid username) else .ok (.invalid .expired)
  created_not_finite : ∀ t₀, (∀ expires, config.expiresAt t₀ ≠ .finite expires) → ∀ username t,
    verifySessionToken p (createSessionToken p username config t₀) config t =
      .ok (.invalid .malformed)
  total : ∀ token now, ∃ result, verifySessionToken p token config now = .ok result
  accepted : ∀ token now username, verifySessionToken p token config now = .ok (.valid username) →
    ∃ payloadB64, SignedFor p token config.signingSecret username payloadB64 now ∧
      ∀ created : List (String × SessionTokenConfig × Int),
        (∀ c ∈ created, c.2.1.signingSecret = config.signingSecret) →
        token ∉ created.map (fun c => createSessionToken p c.1 c.2.1 c.2.2) →
        payloadB64 ∉ created.map fun c => payloadB64Of p c.1 c.2.1 c.2.2

/-- **Session tokens verify exactly what was signed.** -/
theorem sessionTokensExact (hp : p.Sound) (config : SessionTokenConfig) :
    SessionTokensExact p config := by
  refine ⟨fun _ _ => verifySessionToken_created hp, ?_, fun _ => verifySessionToken_not_finite hp,
    fun token now => ?_, fun token now username hvalid => ?_⟩
  · intro ttl t₀ httl hsize username t
    rw [verifySessionToken_created hp (SessionTokenConfig.expiresAt_whole httl hsize)]
    norm_cast
  · obtain ⟨username, -, hvalid, -⟩ | ⟨reason, hinvalid⟩ := verifySessionToken_cases hp token config now
    · exact ⟨_, hvalid⟩
    · exact ⟨_, hinvalid⟩
  · obtain ⟨username', payloadB64, hvalid', hsigned⟩ | ⟨reason, hinvalid⟩ :=
      verifySessionToken_cases hp token config now
    · cases hvalid.symm.trans hvalid'
      refine ⟨payloadB64, hsigned, fun created hsecret hnew hmem => ?_⟩
      obtain ⟨c, hc, rfl⟩ := List.mem_map.mp hmem
      refine hnew (List.mem_map.mpr ⟨c, hc, ?_⟩)
      rw [hsigned.signed, createSessionToken, sign, hsecret c hc]
    · cases hvalid.symm.trans hinvalid

/-! ## The sessions of requests -/

def SessionInvalid.text : SessionInvalid → String
  | .malformed => "malformed"
  | .invalidSignature => "invalid_signature"
  | .expired => "expired"

/-- The session that `requireSession` finds for a bearer token. -/
def sessionCheck (p : SessionPlatform) (sessionConfig : Option SessionTokenConfig) (token : String)
    (now : Int) : Except JsError SessionCheck :=
  match sessionConfig with
  | none => return .unconfigured
  | some config => do
    match ← verifySessionToken p token config now with
    | .valid username => return .valid username
    | .invalid reason => return .invalid reason.text

/-! ## A platform -/

section
open BitString

def base64urlAlphabet : List Char :=
  "ABCDEFGHIJKLMNOPQRSTUVWXYZabcdefghijklmnopqrstuvwxyz0123456789-_".toList

def base64urlDigit (group : List Bool) : Char := base64urlAlphabet.getD (value group) 'A'

/-- The bits that a character of base64url stands for: none where it is not of the alphabet. -/
def base64urlBits (c : Char) : List Bool :=
  match base64urlAlphabet.idxOf? c with
  | some digit => low 6 digit
  | none => []

def base64url (bytes : List UInt8) : String :=
  String.ofList ((groups 6 (bitsOf bytes)).map base64urlDigit)

def readBase64url (text : String) : List UInt8 := bytesOf (text.toList.flatMap base64urlBits)

theorem base64urlDigit_low : ∀ n < 64,
    base64urlBits (base64urlDigit (low 6 n)) = low 6 n ∧ base64urlDigit (low 6 n) ≠ '.' := by
  decide +kernel

theorem base64urlDigit_group {group : List Bool} (h : group.length = 6) :
    base64urlBits (base64urlDigit group) = group ∧ base64urlDigit group ≠ '.' := by
  have hlt : value group < 64 := (value_lt group).trans_eq (congrArg (2 ^ ·) h)
  have hgroup : low 6 (value group) = group := by rw [← h, low_value]
  rw [← hgroup]
  exact base64urlDigit_low _ hlt

theorem readBase64url_base64url (bytes : List UInt8) : readBase64url (base64url bytes) = bytes := by
  have hbits : ((groups 6 (bitsOf bytes)).map base64urlDigit).flatMap base64urlBits =
      (groups 6 (bitsOf bytes)).flatten := by
    rw [List.flatMap_map, List.flatten_eq_flatMap]
    exact List.flatMap_congr fun group hgroup =>
      (base64urlDigit_group (length_of_mem_groups hgroup)).1
  rw [readBase64url, base64url, String.toList_ofList, hbits, bytesOf_groups (by decide) (by decide)]

theorem base64url_dotless (bytes : List UInt8) : '.' ∉ (base64url bytes).toList := by
  rw [base64url, String.toList_ofList]
  intro hmem
  obtain ⟨group, hgroup, hdot⟩ := List.mem_map.mp hmem
  exact (base64urlDigit_group (length_of_mem_groups hgroup)).2 hdot

end

section
open Json

def numberValue (q : ℚ) : Json.Value := .number ⟨rationalText q, isNumber_rationalText q⟩

mutual

/-- The value that a JSON text was read as. -/
def JsonValue.ofJson : Json.Value → JsonValue
  | .word .null => .null
  | .word .true => .boolean true
  | .word .false => .boolean false
  | .number literal => .finite (readRational literal.val)
  | .string s => .string ((ofUtf8 s).getD "")
  | .array items => .array (ofItems items)
  | .object members => .object (ofMembers members)

def JsonValue.ofItems : List Json.Value → List JsonValue
  | [] => []
  | item :: items => ofJson item :: ofItems items

/-- Of several members with one key the last counts. -/
def JsonValue.ofMembers : List (Text × Json.Value) → List (String × JsonValue)
  | [] => []
  | (key, v) :: members =>
    if key ∈ members.map Prod.fst then ofMembers members
    else ((ofUtf8 key).getD "", ofJson v) :: ofMembers members

end

/-- What `JSON.stringify` writes for a payload. -/
def SessionPayload.value (payload : SessionPayload) : Json.Value :=
  .object [(utf8 "username", text payload.username), (utf8 "issuedAt", numberValue payload.issuedAt),
    (utf8 "expiresAt", match payload.expiresAt with
      | .finite q => numberValue q
      | _ => .word .null)]

@[simp] theorem JsonValue.ofJson_text (s : String) : ofJson (text s) = .string s := by
  rw [text, ofJson, ofUtf8_utf8]
  rfl

@[simp] theorem JsonValue.ofJson_numberValue (q : ℚ) :
    ofJson (numberValue q) = .finite q := by
  simp only [numberValue, ofJson, readRational_rationalText]

theorem JsonValue.ofJson_value (payload : SessionPayload) : ofJson payload.value = payload.json := by
  obtain ⟨username, issuedAt, expiresAt⟩ := payload
  cases expiresAt with
  | finite q => simp [SessionPayload.value, SessionPayload.json, ofJson, ofMembers]
  | infinity | negInfinity | nan =>
    simp [SessionPayload.value, SessionPayload.json, ofJson, ofMembers]

/-- A platform with the base64url and the JSON of the real one; its keyed function writes down the key
and the text. -/
def sampleSessionPlatform : SessionPlatform where
  toPlatform := samplePlatform
  hmacSha256 secret text := base64url (utf8 secret ++ utf8 text)
  toBase64url := base64url
  fromBase64url := readBase64url
  stringifyPayload payload := Json.stringify payload.value
  parseJson bytes :=
    match Json.parse bytes with
    | some v => .ok (JsonValue.ofJson v)
    | none => .error .syntaxError

theorem sampleSessionPlatform_sound : sampleSessionPlatform.Sound where
  hmac_dotless secret text := base64url_dotless (utf8 secret ++ utf8 text)
  base64url_dotless := base64url_dotless
  base64url_reads := readBase64url_base64url
  json_reads payload := by
    show (match Json.parse (Json.stringify payload.value) with
      | some v => Except.ok (JsonValue.ofJson v)
      | none => .error JsError.syntaxError) = _
    rw [parse_stringify]
    exact congrArg Except.ok (JsonValue.ofJson_value payload)
  collisionFree := fun a b h => by
    have hlist := congrArg String.toList h
    simp only [samplePlatform, sampleSessionPlatform, String.toList_append] at hlist
    exact String.toList_inj.mp (List.append_cancel_left hlist)

end

/-- A token for a sixteenth of a microsecond: the sum is rounded to the time at which it was made. -/
def sampleFleeting : SessionTokenConfig :=
  { signingSecret := "test-signing-secret", ttlMs := some (.finite (1 / 16384)) }

/-- It has expired by then, although its time to live has not passed. -/
theorem session_expires_early : sampleSessionPlatform.Sound ∧
    ((1700000000000 : ℤ) : ℚ) < (1700000000000 : ℤ) + 1 / 16384 ∧
    verifySessionToken sampleSessionPlatform
      (createSessionToken sampleSessionPlatform "alice" sampleFleeting 1700000000000)
      sampleFleeting 1700000000000 = .ok (.invalid .expired) := by
  have hexpires : sampleFleeting.expiresAt 1700000000000 = .finite ((1700000000000 : ℤ) : ℚ) := by
    decide +kernel
  refine ⟨sampleSessionPlatform_sound, by norm_num, ?_⟩
  rw [verifySessionToken_created sampleSessionPlatform_sound hexpires, if_neg (lt_irrefl _)]

theorem sessionTokensExact_sample :
    SessionTokensExact sampleSessionPlatform { signingSecret := "test-signing-secret" } :=
  sessionTokensExact sampleSessionPlatform_sound { signingSecret := "test-signing-secret" }

end Ambit
