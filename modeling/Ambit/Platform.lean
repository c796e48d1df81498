import Ambit.Values

/-! The audit entry as the sources type it, and what the sources take from Node: random ids,
secrets and salts, scrypt, SHA-256, and the text forms of dates and numbers. -/

namespace Ambit

inductive Decision where
  | allowed
  | denied
  | revoked
  | requestSubmitted
  | requestApproved
  | requestDenied
  | requestEscalated
  | requestDecisionRejected
  | anomalyDetected
  | policyCreated
  | policyModified
  | circuitOpened
  | circuitClosed
  | redactionRuleCreated
  | dataAccessed
  | agentIdentityRegistered
  | tokenSecretClaimed
  deriving DecidableEq

/-- The decision as it is written in a message. -/
def Decision.text : Decision → String
  | .allowed => "allowed"
  | .denied => "denied"
  | .revoked => "revoked"
  | .requestSubmitted => "request_submitted"
  | .requestApproved => "request_approved"
  | .requestDenied => "request_denied"
  | .requestEscalated => "request_escalated"
  | .requestDecisionRejected => "request_decision_rejected"
  | .anomalyDetected => "anomaly_detected"
  | .policyCreated => "policy_created"
  | .policyModified => "policy_modified"
  | .circuitOpened => "circuit_opened"
  | .circuitClosed => "circuit_closed"
  | .redactionRuleCreated => "redaction_rule_created"
  | .dataAccessed => "data_accessed"
  | .agentIdentityRegistered => "agent_identity_registered"
  | .tokenSecretClaimed => "token_secret_claimed"

/-- What happened downstream of an allowed mock-endpoint access. -/
inductive AccessOutcome where
  | success
  | unreachable
  deriving DecidableEq

/-- What a caller of `record` supplies. -/
structure AuditEntryInput where
  tokenId : Option String := none
  requestId : Option String := none
  policyId : Option String := none
  subject : String
  action : String
  decision : Decision
  reasonCode : Option String := none
  message : Option String := none
  actor : Option String := none
  outcome : Option AccessOutcome := none
  redactedFields : Option (List String) := none
  deriving DecidableEq

/-- An entry without its own hash: the text that is hashed. -/
structure AuditContent extends AuditEntryInput where
  id : String
  occurredAt : Int
  previousHash : Option String
  deriving DecidableEq

structure AuditLogEntry extends AuditContent where
  hash : String
  deriving DecidableEq

/-- What the sources take from Node. Randomness is a supply of values that do not repeat, indexed
by the number of draws; scrypt and SHA-256 are any functions, scrypt of the length asked for. -/
structure Platform where
  randomUUID : Nat → String
  randomUUID_injective : Function.Injective randomUUID
  randomUUID_ne_empty : ∀ n, randomUUID n ≠ ""
  /-- `randomBytes(32).toString("hex")` -/
  randomSecret : Nat → String
  randomSecret_injective : Function.Injective randomSecret
  randomSecret_ne_empty : ∀ n, randomSecret n ≠ ""
  /-- `randomBytes(SALT_BYTES)` -/
  randomSalt : Nat → List UInt8
  randomSalt_length : ∀ n, (randomSalt n).length = 16
  scrypt : String → List UInt8 → Nat → List UInt8
  scrypt_length : ∀ plaintext salt n, (scrypt plaintext salt n).length = n
  sha256 : String → String
  /-- `JSON.stringify` of an audit entry without its hash. -/
  stringify : AuditContent → String
  toISOString : Int → String
  numberText : JsNumber → String

/-- A date in a message; the sources only print dates that are valid. -/
def Platform.dateText (p : Platform) : Date → String
  | .ms t => p.toISOString t
  | .invalid => "Invalid Date"

end Ambit
