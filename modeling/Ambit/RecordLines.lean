import Ambit.Records
import Ambit.Lib.IsoDate
import Ambit.Lib.JsonFields

/-! The records as they stand in the store files, and the revivers that read them back. What a record
becomes on the way is its `image`. The order of the members is that of the records' fields; nothing
reads it. -/

namespace Ambit

open Json

/-! ## Dates and numbers -/

/-- The finite values of a JavaScript number. -/
def IsDouble (q : ℚ) : Prop :=
  ∃ m e : ℤ, |m| < 2 ^ 53 ∧ -1074 ≤ e ∧ e ≤ 971 ∧ q = m * 2 ^ e

/-- How the runtime writes finite numbers, and the values of the literals it reads. -/
structure JsonNumbers where
  literal : ℚ → { l : Text // IsNumber l }
  value : Text → ℚ
  value_literal : ∀ q, IsDouble q → value (literal q).val = q

/-- A number that a double can hold. -/
def JsNumber.IsDouble : JsNumber → Prop
  | .finite q => Ambit.IsDouble q
  | _ => True

/-- A date within the range of `Date`. -/
def Date.InRange : Date → Prop
  | .ms t => IsoDate.IsTime t
  | .invalid => True

/-- `toJSON` of a date: the ISO text, or `null` for an Invalid Date. -/
def Date.json : Date → Value
  | .ms t => text (String.ofList (IsoDate.text t))
  | .invalid => .word .null

/-- `new Date(x)` of a member that was written so; other texts are no dates here. -/
def newDate : Value → Option Date
  | .string s => (ofUtf8 s).map fun s =>
    match IsoDate.read s.toList with
    | some t => if IsoDate.text t = s.toList then .ms t else .invalid
    | none => .invalid
  | .word .null => some (.ms 0)
  | _ => none

/-- `new Date(x)` where the record holds a valid date. -/
def newTime (v : Value) : Option Int :=
  match newDate v with
  | some (.ms t) => some t
  | _ => none

/-- `t.revokedAt ? new Date(t.revokedAt) : undefined` -/
def newTimeIfTruthy : Option Value → Option (Option Int)
  | none | some (.word .null) | some (.string []) => some none
  | some v => (newTime v).map some

theorem newDate_json {d : Date} (h : d.InRange) : newDate d.json = some d.reload := by
  cases d with
  | invalid => rfl
  | ms t =>
    simp only [Date.json, text, newDate, ofUtf8_utf8, Option.map_some, String.toList_ofList,
      IsoDate.read_text h, if_true]
    rfl

theorem newTime_json {t : Int} (h : IsoDate.IsTime t) : newTime (Date.ms t).json = some t := by
  rw [newTime, newDate_json (show (Date.ms t).InRange from h)]
  rfl

theorem newTimeIfTruthy_json {d : Option Int} (h : ∀ t ∈ d, IsoDate.IsTime t) :
    newTimeIfTruthy (d.map fun t => (Date.ms t).json) = some d := by
  cases d with
  | none => rfl
  | some t =>
    have htime := newTime_json (h t rfl)
    have htext : IsoDate.text t ≠ [] := by
      rw [IsoDate.text]
      intro hnil
      simpa using congrArg List.length hnil
    have hbytes : ∃ b bs, utf8 (String.ofList (IsoDate.text t)) = b :: bs := by
      apply List.exists_cons_of_ne_nil
      intro hnil
      have hempty : String.ofList (IsoDate.text t) = "" := utf8_injective hnil
      exact htext (by simpa using congrArg String.toList hempty)
    obtain ⟨b, bs, hbs⟩ := hbytes
    rw [Date.json, text, hbs] at htime
    rw [Option.map_some, Date.json, text, hbs]
    show (newTime (.string (b :: bs))).map some = _
    rw [htime]
    rfl

section
variable (c : JsonNumbers)

def JsNumber.json : JsNumber → Value
  | .finite q => .number (c.literal q)
  | _ => .word .null

/-- A number; `null` counts as zero wherever it is used. -/
def readNumber : Value → Option JsNumber
  | .number l => some (.finite (c.value l.val))
  | .word .null => some (.finite 0)
  | _ => none

theorem readNumber_json {n : JsNumber} (h : n.IsDouble) :
    readNumber c (n.json c) = some n.reload := by
  cases n with
  | finite q => exact congrArg (some ∘ JsNumber.finite) (c.value_literal q h)
  | infinity | negInfinity | nan => rfl

end

/-- The member of a closed set that a text names. -/
def ofText {α : Type} (all : List α) (text : α → String) (v : Value) : Option α :=
  (asText v).bind fun s => all.find? fun a => text a = s

/-! ## Tokens -/

def TokenStatus.text : TokenStatus → String
  | .active => "active"
  | .revoked => "revoked"

def TokenStatus.read : Value → Option TokenStatus := ofText [.active, .revoked] TokenStatus.text

def RevocationReason.read : Value → Option RevocationReason :=
  ofText [.compromised, .noLongerNeeded, .policyViolation, .superseded, .parentRevoked]
    RevocationReason.text

@[simp] theorem TokenStatus.read_text (s : TokenStatus) : read (Json.text s.text) = some s := by
  cases s <;> simp [read, ofText, text]

@[simp] theorem RevocationReason.read_text (r : RevocationReason) :
    read (Json.text r.text) = some r := by
  cases r <;> simp [read, ofText, text]

def Token.fields (t : Token) : List (String × Option Value) := [
  ("id", some (text t.id)),
  ("subject", some (text t.subject)),
  ("scope", some (texts t.scope)),
  ("issuedAt", some (Date.ms t.issuedAt).json),
  ("expiresAt", some t.expiresAt.json),
  ("status", some (text t.status.text)),
  ("parentTokenId", t.parentTokenId.map text),
  ("revokedAt", t.revokedAt.map fun time => (Date.ms time).json),
  ("revocationReason", t.revocationReason.map fun r => text r.text),
  ("secretHash", some (text t.secretHash))]

/-- The line that `TokenStore.save` writes. -/
def Token.members (t : Token) : List (Text × Value) := Json.members t.fields

def reviveToken : Value → Option Token
  | .object ms => do
    return {
      id := ← required asText "id" ms
      subject := ← required asText "subject" ms
      scope := ← required asTexts "scope" ms
      issuedAt := ← required newTime "issuedAt" ms
      expiresAt := ← required newDate "expiresAt" ms
      status := ← required TokenStatus.read "status" ms
      parentTokenId := ← optional asText "parentTokenId" ms
      revokedAt := ← newTimeIfTruthy (lookup "revokedAt" ms)
      revocationReason := ← optional RevocationReason.read "revocationReason" ms
      secretHash := ← required asText "secretHash" ms }
  | _ => none

/-- The times of a token are times that a `Date` can hold. -/
structure Token.InRange (t : Token) : Prop where
  issuedAt : IsoDate.IsTime t.issuedAt
  expiresAt : t.expiresAt.InRange
  revokedAt : ∀ time ∈ t.revokedAt, IsoDate.IsTime time

/-- A token's line revives to the token's image. -/
theorem reviveToken_members {t : Token} (h : t.InRange) :
    reviveToken (.object t.members) = some t.image := by
  have hkeys : (t.fields.map Prod.fst).Nodup := by simp [Token.fields]
  have hrevoked : newTimeIfTruthy (lookup "revokedAt" t.members) = some t.revokedAt := by
    rw [Token.members, lookup_members hkeys]
    exact newTimeIfTruthy_json h.revokedAt
  simp only [reviveToken, Token.members] at hrevoked ⊢
  rw [required_members hkeys rfl (asText_text t.id),
    required_members hkeys rfl (asText_text t.subject),
    required_members hkeys rfl (asTexts_texts t.scope),
    required_members hkeys rfl (newTime_json h.issuedAt),
    required_members hkeys rfl (newDate_json h.expiresAt),
    required_members hkeys rfl (TokenStatus.read_text t.status),
    optional_members hkeys rfl asText_text, hrevoked,
    optional_members hkeys rfl RevocationReason.read_text,
    required_members hkeys rfl (asText_text t.secretHash)]
  rfl

/-! ## Requests -/

def RequestStatus.read : Value → Option RequestStatus :=
  ofText [.pending, .approved, .denied] RequestStatus.text

@[simp] theorem RequestStatus.read_text (s : RequestStatus) : read (Json.text s.text) = some s := by
  cases s <;> simp [read, ofText, text]

/-- `forPersistence`: everything but the secret. -/
def PendingRequest.fields (c : JsonNumbers) (r : PendingRequest) : List (String × Option Value) := [
  ("subject", some (text r.subject)),
  ("scope", some (texts r.scope)),
  ("ttlSeconds", some (r.ttlSeconds.json c)),
  ("parentTokenId", r.parentTokenId.map text),
  ("policyId", r.policyId.map text),
  ("id", some (text r.id)),
  ("status", some (text r.status.text)),
  ("requestedAt", some (Date.ms r.requestedAt).json),
  ("tokenId", r.tokenId.map text),
  ("idempotencyKey", r.idempotencyKey.map text),
  ("assignedApprover", r.assignedApprover.map text)]

/-- The line that `RequestStore.save` writes. -/
def PendingRequest.members (c : JsonNumbers) (r : PendingRequest) : List (Text × Value) :=
  Json.members (r.fields c)

def revivePendingRequest (c : JsonNumbers) : Value → Option PendingRequest
  | .object ms => do
    return {
      subject := ← required asText "subject" ms
      scope := ← required asTexts "scope" ms
      ttlSeconds := ← required (readNumber c) "ttlSeconds" ms
      parentTokenId := ← optional asText "parentTokenId" ms
      policyId := ← optional asText "policyId" ms
      id := ← required asText "id" ms
      status := ← required RequestStatus.read "status" ms
      requestedAt := ← required newTime "requestedAt" ms
      tokenId := ← optional asText "tokenId" ms
      tokenSecret := ← optional asText "tokenSecret" ms
      idempotencyKey := ← optional asText "idempotencyKey" ms
      assignedApprover := ← optional asText "assignedApprover" ms }
  | _ => none

structure PendingRequest.InRange (r : PendingRequest) : Prop where
  ttlSeconds : r.ttlSeconds.IsDouble
  requestedAt : IsoDate.IsTime r.requestedAt

theorem PendingRequest.no_tokenSecret (c : JsonNumbers) (r : PendingRequest) :
    utf8 "tokenSecret" ∉ (r.members c).map Prod.fst := by
  apply not_mem_keys_members
  simp [PendingRequest.fields]

/-- A request's line revives to the request's image, which has no secret. -/
theorem revivePendingRequest_members (c : JsonNumbers) {r : PendingRequest} (h : r.InRange) :
    revivePendingRequest c (.object (r.members c)) = some r.image := by
  have hkeys : ((r.fields c).map Prod.fst).Nodup := by simp [PendingRequest.fields]
  simp only [revivePendingRequest, PendingRequest.members]
  rw [required_members hkeys rfl (asText_text r.subject),
    required_members hkeys rfl (asTexts_texts r.scope),
    required_members hkeys rfl (readNumber_json c h.ttlSeconds),
    optional_members hkeys rfl asText_text, optional_members hkeys rfl asText_text,
    required_members hkeys rfl (asText_text r.id),
    required_members hkeys rfl (RequestStatus.read_text r.status),
    required_members hkeys rfl (newTime_json h.requestedAt),
    optional_members hkeys rfl asText_text, optional_missing hkeys rfl,
    optional_members hkeys rfl asText_text, optional_members hkeys rfl asText_text]
  rfl

/-! ## Policies, agents, redaction rules -/

def Policy.fields (c : JsonNumbers) (policy : Policy) : List (String × Option Value) := [
  ("id", some (text policy.id)),
  ("name", some (text policy.name)),
  ("allowedScope", some (texts policy.allowedScope)),
  ("maxTtlSeconds", some (policy.maxTtlSeconds.json c)),
  ("authoredBy", some (text policy.authoredBy)),
  ("createdAt", some (Date.ms policy.createdAt).json),
  ("updatedAt", some (Date.ms policy.updatedAt).json)]

def Policy.members (c : JsonNumbers) (policy : Policy) : List (Text × Value) :=
  Json.members (policy.fields c)

def revivePolicy (c : JsonNumbers) : Value → Option Policy
  | .object ms => do
    return {
      id := ← required asText "id" ms
      name := ← required asText "name" ms
      allowedScope := ← required asTexts "allowedScope" ms
      maxTtlSeconds := ← required (readNumber c) "maxTtlSeconds" ms
      authoredBy := ← required asText "authoredBy" ms
      createdAt := ← required newTime "createdAt" ms
      updatedAt := ← required newTime "updatedAt" ms }
  | _ => none

structure Policy.InRange (policy : Policy) : Prop where
  maxTtlSeconds : policy.maxTtlSeconds.IsDouble
  createdAt : IsoDate.IsTime policy.createdAt
  updatedAt : IsoDate.IsTime policy.updatedAt

theorem revivePolicy_members (c : JsonNumbers) {policy : Policy} (h : policy.InRange) :
    revivePolicy c (.object (policy.members c)) = some policy.image := by
  have hkeys : ((policy.fields c).map Prod.fst).Nodup := by simp [Policy.fields]
  simp only [revivePolicy, Policy.members]
  rw [required_members hkeys rfl (asText_text policy.id),
    required_members hkeys rfl (asText_text policy.name),
    required_members hkeys rfl (asTexts_texts policy.allowedScope),
    required_members hkeys rfl (readNumber_json c h.maxTtlSeconds),
    required_members hkeys rfl (asText_text policy.authoredBy),
    required_members hkeys rfl (newTime_json h.createdAt),
    required_members hkeys rfl (newTime_json h.updatedAt)]
  rfl

def AgentIdentity.fields (identity : AgentIdentity) : List (String × Option Value) := [
  ("id", some (text identity.id)),
  ("subject", some (text identity.subject)),
  ("secretHash", some (text identity.secretHash)),
  ("createdBy", some (text identity.createdBy)),
  ("createdAt", some (Date.ms identity.createdAt).json)]

def AgentIdentity.members (identity : AgentIdentity) : List (Text × Value) :=
  Json.members identity.fields

def reviveAgentIdentity : Value → Option AgentIdentity
  | .object ms => do
    return {
      id := ← required asText "id" ms
      subject := ← required asText "subject" ms
      secretHash := ← required asText "secretHash" ms
      createdBy := ← required asText "createdBy" ms
      createdAt := ← required newTime "createdAt" ms }
  | _ => none

theorem reviveAgentIdentity_members {identity : AgentIdentity}
    (h : IsoDate.IsTime identity.createdAt) :
    reviveAgentIdentity (.object identity.members) = some identity := by
  have hkeys : (identity.fields.map Prod.fst).Nodup := by simp [AgentIdentity.fields]
  simp only [reviveAgentIdentity, AgentIdentity.members]
  rw [required_members hkeys rfl (asText_text identity.id),
    required_members hkeys rfl (asText_text identity.subject),
    required_members hkeys rfl (asText_text identity.secretHash),
    required_members hkeys rfl (asText_text identity.createdBy),
    required_members hkeys rfl (newTime_json h)]
  rfl

def RedactionRule.fields (rule : RedactionRule) : List (String × Option Value) := [
  ("id", some (text rule.id)),
  ("name", some (text rule.name)),
  ("sensitiveFields", some (textMap rule.sensitiveFields)),
  ("authoredBy", some (text rule.authoredBy)),
  ("createdAt", some (Date.ms rule.createdAt).json)]

def RedactionRule.members (rule : RedactionRule) : List (Text × Value) := Json.members rule.fields

def reviveRedactionRule : Value → Option RedactionRule
  | .object ms => do
    return {
      id := ← required asText "id" ms
      name := ← required asText "name" ms
      sensitiveFields := ← required asTextMap "sensitiveFields" ms
      authoredBy := ← required asText "authoredBy" ms
      createdAt := ← required newTime "createdAt" ms }
  | _ => none

theorem reviveRedactionRule_members {rule : RedactionRule} (h : IsoDate.IsTime rule.createdAt) :
    reviveRedactionRule (.object rule.members) = some rule := by
  have hkeys : (rule.fields.map Prod.fst).Nodup := by simp [RedactionRule.fields]
  simp only [reviveRedactionRule, RedactionRule.members]
  rw [required_members hkeys rfl (asText_text rule.id),
    required_members hkeys rfl (asText_text rule.name),
    required_members hkeys rfl (asTextMap_textMap rule.sensitiveFields),
    required_members hkeys rfl (asText_text rule.authoredBy),
    required_members hkeys rfl (newTime_json h)]
  rfl

end Ambit
