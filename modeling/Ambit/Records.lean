import Ambit.Values

/-! The records of the stores, and what each becomes when it is written to its file and read back
(`image`): an Invalid Date reads back as the epoch, a revocation date that is not there stays
away, an infinite number reads back as zero, and a request leaves its token's secret behind. -/

namespace Ambit

/-! ## Tokens -/

inductive TokenStatus where
  | active
  | revoked
  deriving DecidableEq

inductive RevocationReason where
  | compromised
  | noLongerNeeded
  | policyViolation
  | superseded
  | parentRevoked
  deriving DecidableEq

def RevocationReason.text : RevocationReason → String
  | .compromised => "compromised"
  | .noLongerNeeded => "no_longer_needed"
  | .policyViolation => "policy_violation"
  | .superseded => "superseded"
  | .parentRevoked => "parent_revoked"

structure TokenRequest where
  subject : String
  scope : List String
  ttlSeconds : JsNumber
  parentTokenId : Option String := none
  policyId : Option String := none
  deriving DecidableEq

structure Token where
  id : String
  subject : String
  scope : List String
  issuedAt : Int
  expiresAt : Date
  status : TokenStatus
  parentTokenId : Option String
  revokedAt : Option Int := none
  revocationReason : Option RevocationReason := none
  secretHash : String
  deriving DecidableEq

/-- `reviveToken` of the token's line. -/
def Token.image (t : Token) : Token := { t with expiresAt := t.expiresAt.reload }

def Token.revoke (token : Token) (now : Int) (reasonCode : RevocationReason) : Token :=
  { token with
    status := .revoked, revokedAt := some now, revocationReason := some reasonCode }

structure IssuedToken where
  token : Token
  secret : String

/-! ## Requests -/

inductive RequestStatus where
  | pending
  | approved
  | denied
  deriving DecidableEq

def RequestStatus.text : RequestStatus → String
  | .pending => "pending"
  | .approved => "approved"
  | .denied => "denied"

structure PendingRequest where
  subject : String
  scope : List String
  ttlSeconds : JsNumber
  parentTokenId : Option String := none
  policyId : Option String := none
  id : String
  status : RequestStatus
  requestedAt : Int
  tokenId : Option String := none
  tokenSecret : Option String := none
  idempotencyKey : Option String := none
  assignedApprover : Option String := none
  deriving DecidableEq

/-- `revivePendingRequest` of the line `forPersistence` writes. -/
def PendingRequest.image (r : PendingRequest) : PendingRequest :=
  { r with ttlSeconds := r.ttlSeconds.reload, tokenSecret := none }

inductive DenialReason where
  | scopeTooBroad
  | policyViolation
  | unverifiedSubject
  | duplicateRequest
  | other
  deriving DecidableEq

def DenialReason.text : DenialReason → String
  | .scopeTooBroad => "scope_too_broad"
  | .policyViolation => "policy_violation"
  | .unverifiedSubject => "unverified_subject"
  | .duplicateRequest => "duplicate_request"
  | .other => "other"

/-! ## Policies, agents, redaction rules -/

structure Policy where
  id : String
  name : String
  allowedScope : List String
  maxTtlSeconds : JsNumber
  authoredBy : String
  createdAt : Int
  updatedAt : Int
  deriving DecidableEq

def Policy.image (policy : Policy) : Policy :=
  { policy with maxTtlSeconds := policy.maxTtlSeconds.reload }

structure AgentIdentity where
  id : String
  subject : String
  secretHash : String
  createdBy : String
  createdAt : Int
  deriving DecidableEq

/-- `sensitiveFields` lists the field names with their required scopes, as `Object.entries` does. -/
structure RedactionRule where
  id : String
  name : String
  sensitiveFields : List (String × String)
  authoredBy : String
  createdAt : Int
  deriving DecidableEq

inductive MockSystem where
  | email
  | codeHosting
  | payment
  | crm
  deriving DecidableEq

def MockSystem.text : MockSystem → String
  | .email => "email"
  | .codeHosting => "code-hosting"
  | .payment => "payment"
  | .crm => "crm"

theorem Token.image_image (t : Token) : t.image.image = t.image := by simp [Token.image]

theorem PendingRequest.image_image (r : PendingRequest) : r.image.image = r.image := by
  simp [PendingRequest.image]

theorem Policy.image_image (policy : Policy) : policy.image.image = policy.image := by
  simp [Policy.image]

end Ambit
