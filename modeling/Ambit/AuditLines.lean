import Ambit.Platform
import Ambit.RecordLines

/-! The entries of the audit log as they stand in its files, and the reviver that reads them back. The
callers of `record` give the members of an entry in orders of their own; they are hashed and written in
that order, and no reading depends on it. -/

namespace Ambit

open Json

/-! ## The members of an entry -/

def AccessOutcome.text : AccessOutcome → String
  | .success => "success"
  | .unreachable => "unreachable"

def AccessOutcome.read : Value → Option AccessOutcome :=
  ofText [.success, .unreachable] AccessOutcome.text

def Decision.read : Value → Option Decision :=
  ofText [.allowed, .denied, .revoked, .requestSubmitted, .requestApproved, .requestDenied,
    .requestEscalated, .requestDecisionRejected, .anomalyDetected, .policyCreated, .policyModified,
    .circuitOpened, .circuitClosed, .redactionRuleCreated, .dataAccessed, .agentIdentityRegistered,
    .tokenSecretClaimed] Decision.text

@[simp] theorem AccessOutcome.read_text (o : AccessOutcome) : read (Json.text o.text) = some o := by
  cases o <;> simp [read, ofText, text]

@[simp] theorem Decision.read_text (d : Decision) : read (Json.text d.text) = some d := by
  cases d <;> simp [read, ofText, text]

/-- The link to the entry before; the first has `null`. -/
def linkJson (previousHash : Option String) : Value := previousHash.elim (.word .null) text

def readLink : Value → Option (Option String)
  | .word .null => some none
  | v => (asText v).map some

@[simp] theorem readLink_linkJson (previousHash : Option String) :
    readLink (linkJson previousHash) = some previousHash := by
  cases previousHash with
  | none => rfl
  | some hash => simp [linkJson, readLink, text, asText]

/-- What a caller of `record` supplies, in the order of the type. -/
def AuditEntryInput.fields (e : AuditEntryInput) : List (String × Option Value) := [
  ("tokenId", e.tokenId.map text),
  ("requestId", e.requestId.map text),
  ("policyId", e.policyId.map text),
  ("subject", some (text e.subject)),
  ("action", some (text e.action)),
  ("decision", some (text e.decision.text)),
  ("reasonCode", e.reasonCode.map text),
  ("message", e.message.map text),
  ("actor", e.actor.map text),
  ("outcome", e.outcome.map fun o => text o.text),
  ("redactedFields", e.redactedFields.map texts)]

/-- The orders in which the callers of `record` give the members of their entries. -/
structure MemberOrder where
  fields : AuditEntryInput → List (String × Option Value)
  perm : ∀ e, (fields e).Perm e.fields

/-- `withoutHash` of `record`. -/
def AuditContent.fields (order : MemberOrder) (c : AuditContent) : List (String × Option Value) :=
  ("id", some (text c.id)) :: ("occurredAt", some (Date.ms c.occurredAt).json) ::
    ("previousHash", some (linkJson c.previousHash)) :: order.fields c.toAuditEntryInput

def AuditLogEntry.fields (order : MemberOrder) (e : AuditLogEntry) : List (String × Option Value) :=
  e.toAuditContent.fields order ++ [("hash", some (text e.hash))]

/-- The text that `computeEntryHash` hashes. -/
def AuditContent.line (order : MemberOrder) (c : AuditContent) : Text :=
  stringify (.object (members (c.fields order)))

/-- The line that `record` writes. -/
def AuditLogEntry.members (order : MemberOrder) (e : AuditLogEntry) : List (Text × Value) :=
  Json.members (e.fields order)

/-! ## Reading an entry -/

def reviveAuditLogEntry : Value → Option AuditLogEntry
  | .object ms => do
    return {
      id := ← required asText "id" ms
      occurredAt := ← required newTime "occurredAt" ms
      previousHash := ← required readLink "previousHash" ms
      tokenId := ← optional asText "tokenId" ms
      requestId := ← optional asText "requestId" ms
      policyId := ← optional asText "policyId" ms
      subject := ← required asText "subject" ms
      action := ← required asText "action" ms
      decision := ← required Decision.read "decision" ms
      reasonCode := ← optional asText "reasonCode" ms
      message := ← optional asText "message" ms
      actor := ← optional asText "actor" ms
      outcome := ← optional AccessOutcome.read "outcome" ms
      redactedFields := ← optional asTexts "redactedFields" ms
      hash := ← required asText "hash" ms }
  | _ => none

/-- The reviver sees of an object what each of its keys leads to. -/
theorem reviveAuditLogEntry_congr {ms ms' : List (Text × Value)}
    (h : ∀ key, lookup key ms = lookup key ms') :
    reviveAuditLogEntry (.object ms) = reviveAuditLogEntry (.object ms') := by
  have hrequired : ∀ {α : Type} (read : Value → Option α) (key : String),
      required read key ms = required read key ms' := by
    intro α read key
    rw [required, required, h]
  have hoptional : ∀ {α : Type} (read : Value → Option α) (key : String),
      optional read key ms = optional read key ms' := by
    intro α read key
    unfold Json.optional
    rw [h]
  simp only [reviveAuditLogEntry, hrequired, hoptional]

/-- The members of an entry in the order of the type. -/
def AuditLogEntry.orderedFields (e : AuditLogEntry) : List (String × Option Value) :=
  ("id", some (text e.id)) :: ("occurredAt", some (Date.ms e.occurredAt).json) ::
    ("previousHash", some (linkJson e.previousHash)) ::
      (e.toAuditEntryInput.fields ++ [("hash", some (text e.hash))])

theorem AuditLogEntry.fields_perm (order : MemberOrder) (e : AuditLogEntry) :
    (e.fields order).Perm e.orderedFields :=
  (((order.perm e.toAuditEntryInput).append_right _).cons _ |>.cons _).cons _

theorem AuditLogEntry.nodup_orderedFields (e : AuditLogEntry) :
    (e.orderedFields.map Prod.fst).Nodup := by
  simp [orderedFields, AuditEntryInput.fields]

/-- **An entry's line revives to the entry**, whatever the order of its members. -/
theorem reviveAuditLogEntry_members (order : MemberOrder) {e : AuditLogEntry}
    (h : IsoDate.IsTime e.occurredAt) :
    reviveAuditLogEntry (.object (e.members order)) = some e := by
  have hkeys := e.nodup_orderedFields
  have hkeys' : ((e.fields order).map Prod.fst).Nodup :=
    ((e.fields_perm order).map _).nodup_iff.mpr hkeys
  rw [AuditLogEntry.members, reviveAuditLogEntry_congr (lookup_members_perm hkeys' (e.fields_perm order))]
  simp only [reviveAuditLogEntry]
  rw [required_members hkeys rfl (asText_text e.id),
    required_members hkeys rfl (newTime_json h),
    required_members hkeys rfl (readLink_linkJson e.previousHash),
    optional_members hkeys rfl asText_text, optional_members hkeys rfl asText_text,
    optional_members hkeys rfl asText_text,
    required_members hkeys rfl (asText_text e.subject),
    required_members hkeys rfl (asText_text e.action),
    required_members hkeys rfl (Decision.read_text e.decision),
    optional_members hkeys rfl asText_text, optional_members hkeys rfl asText_text,
    optional_members hkeys rfl asText_text, optional_members hkeys rfl AccessOutcome.read_text,
    optional_members hkeys rfl asTexts_texts,
    required_members hkeys rfl (asText_text e.hash)]
  rfl

end Ambit
