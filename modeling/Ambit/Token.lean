import Ambit.PasswordHash
import Ambit.World

/-! `token.ts`: issuance, the Enforcement Gateway, revocation and lineage. A call that awaits the
password hash is cut there: it either returns or hands out a frame, the variables that are live
across the await, and `resume` is the rest of the call. -/

namespace Ambit

open Effect

/-- How far a call gets in one go. -/
inductive Progress (φ α : Type) where
  | returned (value : α)
  | awaiting (frame : φ)

section
variable (env : Env)

/-! ## Issuance -/

/-- The policy check of `issueToken`. -/
def checkPolicy (request : TokenRequest) (policyId : String) (hasPolicyStore : Bool) :
    Op Unit := do
  throwIf (!hasPolicyStore) (.policyViolation
    ("policyId \"" ++ policyId ++ "\" given but no PolicyStore was provided to check against"))
  match ← PolicyStore.get env policyId with
  | none => throw (.policyViolation ("unknown policy \"" ++ policyId ++ "\""))
  | some policy =>
    throwIf (¬ request.scope ⊆ policy.allowedScope)
      (.policyViolation ("requested scope exceeds policy \"" ++ policy.name ++ "\""))
    throwIf (policy.maxTtlSeconds.lt request.ttlSeconds) (.policyViolation
      ("requested ttlSeconds (" ++ env.numberText request.ttlSeconds ++ ") exceeds policy \"" ++
        policy.name ++ "\"'s max of " ++ env.numberText policy.maxTtlSeconds))

/-- The expiry of a token issued now, before the cap by the parent. -/
def requestedExpiry (issuedAt : Int) (ttlSeconds : JsNumber) : Date :=
  .ofNumber ((Date.ms issuedAt).getTime.add (ttlSeconds.scale 1000))

/-- A delegated token's expiry is its parent's where that is earlier. -/
def capExpiry (expiresAt : Date) (parent : Option Token) : Date :=
  match parent with
  | some parent =>
    if parent.expiresAt.getTime.lt expiresAt.getTime then parent.expiresAt else expiresAt
  | none => expiresAt

/-- A suspended `issueToken`. -/
structure IssueFrame where
  request : TokenRequest
  issuedAt : Int
  expiresAt : Date
  secret : String
  salt : List UInt8

def issueToken (request : TokenRequest) (hasPolicyStore : Bool) : Op IssueFrame := do
  throwIf (request.scope = []) (.invalidScope "scope must include at least one permission")
  throwIf (request.ttlSeconds.le (.finite 0)) (.invalidScope
    "ttlSeconds must be positive — a token cannot be issued already expired")
  (match truthy request.policyId with
    | some policyId => checkPolicy env request policyId hasPolicyStore
    | none => pure ())
  let issuedAt ← now
  let parent ← (match truthy request.parentTokenId with
    | some parentTokenId => TokenStore.get env parentTokenId
    | none => pure none : Op (Option Token))
  let expiresAt := capExpiry (requestedExpiry issuedAt request.ttlSeconds) parent
  let secret ← draw env.randomSecret
  let salt ← draw env.randomSalt
  return { request, issuedAt, expiresAt, secret, salt }

def IssueFrame.resume (frame : IssueFrame) : Op IssuedToken := do
  let secretHash := hashPassword env.toPlatform frame.secret frame.salt
  let id ← draw env.randomUUID
  let token : Token :=
    { id, subject := frame.request.subject, scope := frame.request.scope,
      issuedAt := frame.issuedAt, expiresAt := frame.expiresAt, status := .active,
      parentTokenId := frame.request.parentTokenId, secretHash }
  TokenStore.save env token
  return { token, secret := frame.secret }

/-! ## The Enforcement Gateway -/

inductive EnforcementDenialReason where
  | revoked
  | expired
  | outOfScope
  | unknownToken
  | storeUnavailable
  | invalidCredential
  deriving DecidableEq

def EnforcementDenialReason.text : EnforcementDenialReason → String
  | .revoked => "revoked"
  | .expired => "expired"
  | .outOfScope => "out_of_scope"
  | .unknownToken => "unknown_token"
  | .storeUnavailable => "store_unavailable"
  | .invalidCredential => "invalid_credential"

inductive EnforcementDecision where
  | allowed
  | denied (reasonCode : EnforcementDenialReason) (message : String)
  deriving DecidableEq

/-- The whole seconds between issuance and expiry, as the denial message prints them. -/
def ttlText (token : Token) : String :=
  match token.expiresAt with
  | .ms t => toString (jsRound ((t - token.issuedAt : Int) / 1000))
  | .invalid => "NaN"

def revokedMessage (token : Token) : String :=
  let revokedWhen := match token.revokedAt with
    | some t => env.toISOString t
    | none => "an unknown time"
  let revokedWhy := match token.revocationReason with
    | some reason =>
      " with reason \"" ++ reason.text ++ "\"" ++
        if reason = .parentRevoked then " (a token it was delegated from was revoked)" else ""
    | none => ""
  "Token \"" ++ token.id ++ "\" (subject \"" ++ token.subject ++ "\") was revoked at " ++
    revokedWhen ++ revokedWhy ++ " and can no longer be used."

def expiredMessage (token : Token) (now : Int) : String :=
  "Token \"" ++ token.id ++ "\" (subject \"" ++ token.subject ++ "\") expired at " ++
    env.dateText token.expiresAt ++ " — it was issued at " ++ env.toISOString token.issuedAt ++
    " with a " ++ ttlText token ++ "s TTL. The current time is " ++ env.toISOString now ++
    ". Request a new token to continue."

def outOfScopeMessage (token : Token) (action : String) : String :=
  "Token \"" ++ token.id ++ "\" (subject \"" ++ token.subject ++ "\") is scoped to [" ++
    String.intercalate ", " token.scope ++ "] and does not include \"" ++ action ++
    "\". Request a token with broader scope, or delegate from a token that has it."

def decide (token : Token) (action : String) (now : Int) : EnforcementDecision :=
  if token.status ≠ .active then .denied .revoked (revokedMessage env token)
  else if token.expiresAt.getTime.le (Date.ms now).getTime then
    .denied .expired (expiredMessage env token now)
  else if action ∉ token.scope then .denied .outOfScope (outOfScopeMessage token action)
  else .allowed

def storeUnavailableMessage (tokenId : String) : String :=
  "The Policy & Token Store is currently unreachable (circuit breaker open) — token \"" ++
    tokenId ++ "\" could not be validated, so the request was denied by default rather than " ++
    "allowed on unconfirmed data."

def unknownTokenMessage (tokenId : String) : String :=
  "No token found with id \"" ++ tokenId ++ "\" — either it was never issued, the id is " ++
    "incorrect, or this process has restarted since it was issued (state is in-memory and does " ++
    "not persist across restarts — see ADR-006)."

def invalidCredentialMessage (tokenId : String) : String :=
  "The credential provided does not match token \"" ++ tokenId ++ "\" — either it is wrong or " ++
    "missing, or the caller is not this token's rightful holder. No further detail about this " ++
    "token is disclosed to an unverified caller."

/-- Log a denial of the gateway and return it. -/
def denyEnforcement (tokenId subject action : String) (now : Int)
    (reasonCode : EnforcementDenialReason) (message : String) : Op EnforcementDecision := do
  auditRecord env
    { tokenId := some tokenId, subject, action, decision := .denied,
      reasonCode := some reasonCode.text, message := some message } now
  return .denied reasonCode message

/-- A suspended `enforceToken`: the token as it was read before the possession check. -/
structure EnforceFrame where
  tokenId : String
  providedSecret : String
  action : String
  now : Int
  token : Token

def enforceToken (tokenId providedSecret action : String) (now : Int) :
    Op (Progress EnforceFrame EnforcementDecision) := do
  match ← attempt (TokenStore.get env tokenId) with
  | .error (.circuitOpen _) =>
    return .returned (← denyEnforcement env tokenId "unknown" action now .storeUnavailable
      (storeUnavailableMessage tokenId))
  | .error err => throw err
  | .ok none =>
    return .returned (← denyEnforcement env tokenId "unknown" action now .unknownToken
      (unknownTokenMessage tokenId))
  | .ok (some token) => return .awaiting { tokenId, providedSecret, action, now, token }

namespace EnforceFrame

variable (frame : EnforceFrame)

/-- The outcome of the possession check. -/
def possessed : Bool := verifyPassword env.toPlatform frame.providedSecret frame.token.secretHash

def resume : Op EnforcementDecision := do
  if !frame.possessed env then
    denyEnforcement env frame.tokenId frame.token.subject frame.action frame.now
      .invalidCredential (invalidCredentialMessage frame.tokenId)
  else
    match decide env frame.token frame.action frame.now with
    | .allowed =>
      auditRecord env
        { tokenId := some frame.token.id, subject := frame.token.subject, action := frame.action,
          decision := .allowed } frame.now
      return .allowed
    | .denied reasonCode message =>
      denyEnforcement env frame.token.id frame.token.subject frame.action frame.now reasonCode
        message

end EnforceFrame

/-! ## Revocation -/

def revocationEntry (tokenId subject : String) (reasonCode : RevocationReason)
    (actor : Option String) : AuditEntryInput :=
  { tokenId := some tokenId, subject, action := "revoke", decision := .revoked,
    reasonCode := some reasonCode.text, actor }

/-- The recursion of `cascadeRevoke`, at most `fuel` levels deep: each level revokes an active
token before it descends, so as many levels as there are tokens are enough. -/
def cascadeRevokeAux (now : Int) (actor : Option String) : Nat → String → Op Unit
  | 0, _ => pure ()
  | fuel + 1, parentId => do
    (childrenOf (← get) parentId).forM fun child => do
      if child.status = .active then
        TokenStore.save env (child.revoke now .parentRevoked)
        auditRecord env (revocationEntry child.id child.subject .parentRevoked actor) now
        cascadeRevokeAux now actor fuel child.id

def cascadeRevoke (parentId : String) (now : Int) (actor : Option String) : Op Unit := do
  cascadeRevokeAux env now actor ((← get).tokenStore.live.values.length + 1) parentId

def revokeToken (tokenId : String) (reasonCode : RevocationReason) (now : Int)
    (actor : Option String) : Op Token := do
  match ← TokenStore.get env tokenId with
  | none =>
    throw (.unknownToken ("cannot revoke token \"" ++ tokenId ++ "\" — no such token was issued"))
  | some token =>
    let revoked := token.revoke now reasonCode
    TokenStore.save env revoked
    auditRecord env (revocationEntry tokenId token.subject reasonCode actor) now
    cascadeRevoke env tokenId now actor
    return revoked

/-! ## Lineage -/

structure TokenLineageOrigin where
  requestId : Option String
  policyId : Option String
  approver : Option String
  deriving DecidableEq

structure TokenLineage where
  chain : List Token
  origin : Option TokenLineageOrigin
  deriving DecidableEq

/-- The parent walk, at most `fuel` steps: prepend the parents of `current`, the head of the chain.
`none` when the walk has not come to its end. -/
def lineageChain : Nat → Token → List Token → Op (Option (List Token))
  | 0, _, _ => return none
  | fuel + 1, current, chain => do
    match truthy current.parentTokenId with
    | none => return some chain
    | some parentTokenId =>
      match ← TokenStore.get env parentTokenId with
      | none => return some chain
      | some parent => lineageChain fuel parent (parent :: chain)

/-- The origin: the first approval entry that names the root. -/
def lineageOrigin (entries : List AuditEntryInput) (root : Token) : Option TokenLineageOrigin :=
  (entries.find? fun e => e.tokenId = some root.id ∧ e.decision = .requestApproved).map fun e =>
    { requestId := e.requestId, policyId := e.policyId, approver := e.actor }

/-- `getTokenLineage`, with a bound on the steps of its loop; `none` when the bound is too small. -/
def getTokenLineage (fuel : Nat) (tokenId : String) : Op (Option TokenLineage) := do
  match ← TokenStore.get env tokenId with
  | none => throw (.unknownToken ("no such token \"" ++ tokenId ++ "\""))
  | some target =>
    match ← lineageChain env fuel target [target] with
    | none => return none
    | some chain =>
      let entries := (← get).auditLog.entries.map (·.toAuditEntryInput)
      return some { chain, origin := lineageOrigin entries (chain.headD target) }

end

end Ambit
