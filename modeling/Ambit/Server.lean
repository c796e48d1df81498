import Ambit.Runtime

/-! `server.ts`: the routes. A handler is the calls it makes and the response it sends when the last
of them has ended; between two awaits the server does nothing else. What other parts decide about a
request (the signature of a session, the rate limiter, a login's factors, the settings read from
the environment) comes with the request, so that every behaviour of theirs is one of the runs. -/

namespace Ambit

/-! ## Requests -/

/-- What is read from the environment for a request. -/
structure Settings where
  /-- The operator identities and the signing secret are all set. -/
  loginConfigured : Bool := true
  adminUsername : Option String := none
  backupApproverUsername : Option String := none
  requestDecisionWindowMs : Option JsNumber := none
  accessMaxAttempts : Option Int := none

/-- What `verifySessionToken` says of the bearer token. -/
inductive SessionCheck where
  | unconfigured
  | invalid (reason : String)
  | valid (username : String)

/-- What `requireAdminToggleKey` finds. -/
inductive ToggleKeyCheck where
  | unconfigured
  | mismatch
  | matched
  deriving DecidableEq

/-- The routes with their path parameters and the fields of the body that they read; a field is
`none` where it is missing or fails its type check. -/
inductive Route where
  | login (username password totpCode : Option String) (matched : Option String)
  | registerAgent (subject : Option String)
  | listAgents
  | submit (scope : Option (List String)) (ttlSeconds : Option JsNumber)
      (idempotencyKey : Option String)
  | listRequests
  | showRequest (id : String)
  | claimSecret (id : String)
  | approve (id : String) (policyId : Option String)
  | deny (id : String) (reasonCode : Option DenialReason)
  | enforce (id : String) (action : Option String)
  | revoke (id : String) (reasonCode : Option RevocationReason)
  | delegate (id : String) (subject : Option String) (scope : Option (List String))
      (ttlSeconds : Option JsNumber)
  | access (id : String) (system : Option MockSystem) (verb : Option String)
  | mockEndpointDown (system : Option MockSystem) (down : Bool)
  | showCircuitBreaker
  | simulateOutage (down : Bool)
  | listTokens
  | lineage (id : String)
  | createPolicy (name : Option String) (allowedScope : Option (List String))
      (maxTtlSeconds : Option JsNumber)
  | listPolicies
  | modifyPolicy (id : String) (changes : PolicyChanges)
  | createRedactionRule (name : Option String) (sensitiveFields : Option (List (String × String)))
  | listRedactionRules
  | customerData (id customerId : String)
  | auditLog
  | verifyAuditLog

/-- What a client sends one attempt of one of its calls on, and gets the response back on. -/
structure Connection where
  call : Nat
  attempt : Nat
  deriving DecidableEq

/-- A request as it arrives. -/
structure Arrival where
  route : Route
  authorization : Option String := none
  session : SessionCheck := .unconfigured
  toggleKey : ToggleKeyCheck := .unconfigured
  /-- The body is no JSON. -/
  malformed : Bool := false
  /-- A rate limiter refuses the request. -/
  overLimit : Bool := false
  settings : Settings := {}
  /-- The connection of a client that is modelled, too. -/
  connection : Option Connection := none

/-- A request with what the middleware has established about its sender: `req.session` and
`req.agentIdentity`. -/
structure Exchange where
  arrival : Arrival
  session : Option String := none
  agentIdentity : Option String := none

/-- `bearerToken` -/
def Arrival.bearerToken (a : Arrival) : String :=
  let header := (a.authorization.getD "").toList
  let scheme := "Bearer ".toList
  if scheme.isPrefixOf header then String.ofList (header.drop scheme.length) else ""

/-! ## Responses -/

/-- A token without its `secretHash`. -/
structure PublicToken where
  id : String
  subject : String
  scope : List String
  issuedAt : Int
  expiresAt : Date
  status : TokenStatus
  parentTokenId : Option String
  revokedAt : Option Int
  revocationReason : Option RevocationReason
  deriving DecidableEq

def withoutSecretHash (token : Token) : PublicToken where
  id := token.id
  subject := token.subject
  scope := token.scope
  issuedAt := token.issuedAt
  expiresAt := token.expiresAt
  status := token.status
  parentTokenId := token.parentTokenId
  revokedAt := token.revokedAt
  revocationReason := token.revocationReason

/-- What `GET /agent-identities` tells of an identity. -/
structure AgentMetadata where
  id : String
  subject : String
  createdBy : String
  createdAt : Int
  deriving DecidableEq

def AgentIdentity.metadata (identity : AgentIdentity) : AgentMetadata :=
  { id := identity.id, subject := identity.subject, createdBy := identity.createdBy,
    createdAt := identity.createdAt }

inductive Body where
  | error (message : String)
  | session (username : String)
  | registered (id subject credential : String)
  | agents (agents : List AgentMetadata)
  | request (pending : PendingRequest)
  | requests (pending : List PendingRequest)
  | claimed (tokenId secret : String)
  | token (token : Token)
  | publicToken (token : PublicToken)
  | tokens (tokens : List PublicToken)
  | enforcement (decision : EnforcementDecision)
  | delegated (token : PublicToken) (secret : String)
  | delegationDenied (reasonCode : DelegationDenialReason)
  | access (result : AccessResult)
  | customer (result : CustomerDataAccessResult)
  | lineage (chain : List PublicToken) (origin : Option TokenLineageOrigin)
  | mockEndpoint (system : MockSystem) (down : Bool)
  | circuitBreaker (state : CircuitState)
  | outage (down : Bool) (state : CircuitState)
  | policy (policy : Policy)
  | policies (policies : List Policy)
  | redactionRule (rule : RedactionRule)
  | redactionRules (rules : List RedactionRule)
  | auditLog (entries : List AuditLogEntry)
  | verification (result : ChainVerification)

structure Response where
  status : Nat
  body : Option Body

namespace Response

def json (status : Nat) (body : Body) : Response := ⟨status, some body⟩

def error (status : Nat) (message : String) : Response := json status (.error message)

/-- The error handler at the end of the chain. -/
def ofError : Err → Response
  | .invalidScope message | .policyViolation message => error 400 message
  | .circuitOpen message => error 503 message
  | _ => error 500 "internal error"

/-- The errors that the `catch` of a route turns into a response; the others go to the error
handler. -/
def ofFailure : Call → Err → Response
  | .registerAgentIdentity _ _ _, .invalidAgentIdentity message
  | .registerAgentIdentity _ _ _, .duplicateAgentIdentity message => error 400 message
  | .claimTokenSecret _ _ _, .unknownRequest message => error 404 message
  | .claimTokenSecret _ _ _, .wrongSubject message => error 403 message
  | .claimTokenSecret _ _ _, .requestNotApproved message => error 409 message
  | .claimTokenSecret _ _ _, .tokenSecretAlreadyClaimed message => error 410 message
  | .checkRequestTimeout _ _ _ _, .unknownRequest message
  | .approveRequest _, .unknownRequest message
  | .denyRequest _ _ _ _, .unknownRequest message => error 404 message
  | .checkRequestTimeout _ _ _ _, .requestNotPending message
  | .approveRequest _, .requestNotPending message
  | .denyRequest _ _ _ _, .requestNotPending message => error 409 message
  | .checkRequestTimeout _ _ _ _, .unauthorizedDecider message
  | .approveRequest _, .unauthorizedDecider message
  | .denyRequest _ _ _ _, .unauthorizedDecider message => error 403 message
  | .revokeToken _ _ _ _, .unknownToken message
  | .getTokenLineage _, .unknownToken message => error 404 message
  | .createPolicy _ _ _, .invalidPolicy message
  | .modifyPolicy _ _ _ _, .invalidPolicy message => error 400 message
  | .modifyPolicy _ _ _ _, .unknownPolicy message => error 404 message
  | .createRedactionRule _ _ _, .invalidRedactionRule message => error 400 message
  | _, err => ofError err

end Response

/-! ## Handlers -/

section Messages

def loginUnconfiguredMessage : String :=
  "authentication is not configured — set ADMIN_USERNAME, ADMIN_PASSWORD_HASH, " ++
    "ADMIN_TOTP_SECRET, and SESSION_SIGNING_SECRET " ++
    "(BACKUP_APPROVER_USERNAME/_PASSWORD_HASH/_TOTP_SECRET are optional, but must be all set " ++
    "together if used)"

/-- `VALID_DENIAL_REASONS` -/
def validDenialReasons : List DenialReason :=
  [.scopeTooBroad, .policyViolation, .unverifiedSubject, .duplicateRequest, .other]

/-- The reasons that the revoke route takes. -/
def validRevocationReasons : List RevocationReason :=
  [.compromised, .noLongerNeeded, .policyViolation, .superseded]

/-- `MOCK_SYSTEMS` -/
def mockSystems : List MockSystem := [.email, .codeHosting, .payment, .crm]

def reasonCodeMessage (texts : List String) : String :=
  "reasonCode must be one of: " ++ String.intercalate ", " texts

def mockSystemsMessage : String :=
  "system must be one of: " ++ String.intercalate ", " (mockSystems.map MockSystem.text)

end Messages

/-- A handler responds at once, or makes a call. -/
abbrev Handled := Response ⊕ (Exchange × Call)

namespace Arrival

variable (a : Arrival)

/-- `requireSession`, and the handler behind it. -/
def requireSession (handle : Exchange → String → Handled) : Handled :=
  match a.session with
  | .unconfigured => .inl (.error 503 "authentication is not configured")
  | .invalid reason =>
    if a.bearerToken = "" then .inl (.error 401 "missing Authorization: Bearer <token> header")
    else .inl (.error 401 ("invalid session: " ++ reason))
  | .valid username =>
    if a.bearerToken = "" then .inl (.error 401 "missing Authorization: Bearer <token> header")
    else handle { arrival := a, session := some username } username

/-- `requireAgentCredential`, up to its await. -/
def requireAgentCredential : Handled :=
  if a.bearerToken = "" then
    .inl (.error 401 "missing Authorization: Bearer <agentId>.<secret> header")
  else .inr ({ arrival := a }, .authenticateAgent a.bearerToken)

/-- The `checkRequestTimeout` call of `checkThisRequestTimeout`. -/
def checkThisRequestTimeout (requestId : String) (now : Int) : Call :=
  .checkRequestTimeout requestId
    (a.settings.requestDecisionWindowMs.getD (.finite (15 * 60000)))
    a.settings.backupApproverUsername now

/-- The id of the rule that the server has made sure of when it started. -/
def defaultRuleId (w : World) : String :=
  ((w.redactionRuleStore.live.values.find? fun r => r.name = standardRule.name).map
    RedactionRule.id).getD ""

/-- What the server does with a request when it arrives. -/
def handle (env : Env) (w : World) : Handled :=
  -- `express.json` runs first, and its error goes to the error handler
  if a.malformed then .inl (.error 500 "internal error")
  else if a.overLimit then .inl (.error 429 "rate limit exceeded — try again shortly")
  else
    let call (c : Call) : Handled := .inr ({ arrival := a }, c)
    match a.route with
    | .login username password totpCode matched =>
      if !a.settings.loginConfigured then .inl (.error 503 loginUnconfiguredMessage)
      else
        match username, password, totpCode with
        | some username, some _, some _ =>
          match matched with
          | some operator => call (.recordLogin operator true w.clock)
          | none => call (.recordLogin username false w.clock)
        | _, _, _ =>
          .inl (.error 400
            "username (string), password (string), and totpCode (string) are required")
    | .registerAgent subject =>
      a.requireSession fun x username =>
        match subject with
        | some subject => .inr (x, .registerAgentIdentity subject username w.clock)
        | none => .inl (.error 400 "subject (string) is required")
    | .listAgents =>
      a.requireSession fun _ _ =>
        .inl (.json 200 (.agents (w.agentIdentityStore.live.values.map AgentIdentity.metadata)))
    | .submit _ _ _ | .claimSecret _ => a.requireAgentCredential
    | .listRequests => .inl (.json 200 (.requests (pendingRequests w)))
    | .showRequest id =>
      match w.requestStore.live.get id with
      | none => .inl (.error 404 ("no such request \"" ++ id ++ "\""))
      | some pending => .inl (.json 200 (.request { pending with tokenSecret := none }))
    | .approve id _ => a.requireSession fun x _ => .inr (x, a.checkThisRequestTimeout id w.clock)
    | .deny id reasonCode =>
      a.requireSession fun x _ =>
        match reasonCode with
        | some _ => .inr (x, a.checkThisRequestTimeout id w.clock)
        | none => .inl (.error 400 (reasonCodeMessage (validDenialReasons.map DenialReason.text)))
    | .enforce id action =>
      match action with
      | some action => call (.enforceToken id a.bearerToken action w.clock)
      | none => .inl (.error 400 "action (string) is required")
    | .revoke id reasonCode =>
      a.requireSession fun x username =>
        match reasonCode.filter (· ∈ validRevocationReasons) with
        | some reasonCode => .inr (x, .revokeToken id reasonCode w.clock (some username))
        | none =>
          .inl (.error 400 (reasonCodeMessage (validRevocationReasons.map RevocationReason.text)))
    | .delegate id subject scope ttlSeconds =>
      match subject, scope, ttlSeconds with
      | some subject, some scope, some ttlSeconds =>
        call (.delegateToken
          { parentTokenId := id, providedParentSecret := a.bearerToken, childSubject := subject,
            requestedScope := scope, ttlSeconds, now := w.clock })
      | _, _, _ =>
        .inl (.error 400
          "subject (string), scope (string[]), and ttlSeconds (number) are required")
    | .access id system verb =>
      match system, verb with
      | some system, some verb =>
        call (.accessMockEndpoint
          { tokenId := id, providedSecret := a.bearerToken, system, verb,
            maxAttempts := a.settings.accessMaxAttempts.getD 2, now := w.clock })
      | _, _ => .inl (.error 400 (mockSystemsMessage ++ "; verb (string) is required"))
    | .mockEndpointDown system down =>
      match system with
      | some system => call (.setDown system down)
      | none => .inl (.error 400 mockSystemsMessage)
    | .showCircuitBreaker => .inl (.json 200 (.circuitBreaker w.storeCircuitBreaker.state))
    | .simulateOutage down =>
      match a.toggleKey with
      | .unconfigured =>
        .inl (.error 403
          "fault-injection routes are disabled — set ADMIN_TOGGLE_KEY to enable them")
      | .mismatch => .inl (.error 403 "missing or invalid x-ambit-admin-key header")
      | .matched => call (.simulateOutage down)
    | .listTokens => .inl (.json 200 (.tokens (w.tokenStore.live.values.map withoutSecretHash)))
    | .lineage id => call (.getTokenLineage id)
    | .createPolicy name allowedScope maxTtlSeconds =>
      a.requireSession fun x username =>
        match name, allowedScope, maxTtlSeconds with
        | some name, some allowedScope, some maxTtlSeconds =>
          .inr (x, .createPolicy { name, allowedScope, maxTtlSeconds } username w.clock)
        | _, _, _ =>
          .inl (.error 400
            "name (string), allowedScope (string[]), and maxTtlSeconds (number) are required")
    | .listPolicies => .inl (.json 200 (.policies w.policyStore.live.values))
    | .modifyPolicy id changes =>
      a.requireSession fun x username => .inr (x, .modifyPolicy id changes username w.clock)
    | .createRedactionRule name sensitiveFields =>
      a.requireSession fun x username =>
        match name, sensitiveFields with
        | some name, some sensitiveFields =>
          .inr (x, .createRedactionRule { name, sensitiveFields } username w.clock)
        | _, _ =>
          .inl (.error 400 ("name (string) and sensitiveFields (object mapping field name to " ++
            "required scope) are required"))
    | .listRedactionRules => .inl (.json 200 (.redactionRules w.redactionRuleStore.live.values))
    | .customerData id customerId =>
      call (.accessCustomerData
        { tokenId := id, providedSecret := a.bearerToken, customerId,
          redactionRuleId := defaultRuleId w, now := w.clock })
    | .auditLog => .inl (.json 200 (.auditLog w.auditLog.entries))
    | .verifyAuditLog =>
      .inl (.json 200 (.verification (verifyAuditChain env.toPlatform w.auditLog.entries)))

end Arrival

/-- The call that a handler makes after another has ended. -/
def Exchange.next (w : World) (x : Exchange) : Call → Outcome → Option (Exchange × Call)
  | .authenticateAgent _, .identity (some identity) =>
    let x := { x with agentIdentity := some identity.subject }
    match x.arrival.route with
    | .submit (some scope) (some ttlSeconds) idempotencyKey =>
      some (x, .requestToken { subject := identity.subject, scope, ttlSeconds, idempotencyKey }
        x.arrival.settings.adminUsername w.clock)
    | .claimSecret id => some (x, .claimTokenSecret id identity.subject w.clock)
    | _ => none
  | .checkRequestTimeout _ _ _ _, .done =>
    match x.arrival.route, x.session with
    | .approve id policyId, some approver =>
      some (x, .approveRequest { requestId := id, approver, policyId, now := w.clock })
    | .deny id (some reasonCode), some approver =>
      some (x, .denyRequest id approver reasonCode w.clock)
    | _, _ => none
  | .simulateOutage down, .done => some (x, .recordOutageToggle down w.clock)
  | _, _ => none

/-- What a handler sends when its last call has ended. -/
def respond (w : World) : Call → Outcome → Response
  | call, .failed err => .ofFailure call err
  | _, .identity none => .error 401 "invalid agent credential"
  -- a valid credential with nothing to do: the body of a submission fails its checks
  | _, .identity (some _) => .error 400 "scope (string[]) and ttlSeconds (number) are required"
  | _, .request pending => .json 201 (.request pending)
  | _, .claimed tokenId secret => .json 200 (.claimed tokenId secret)
  | .approveRequest _, .token token => .json 200 (.token token)
  | _, .token token => .json 200 (.publicToken (withoutSecretHash token))
  | _, .delegation (.approved token secret) =>
    .json 200 (.delegated (withoutSecretHash token) secret)
  | _, .delegation (.denied reasonCode) => .json 200 (.delegationDenied reasonCode)
  | _, .enforcement decision => .json 200 (.enforcement decision)
  | _, .access result => .json 200 (.access result)
  | _, .customer result => .json 200 (.customer result)
  | _, .lineage (some lineage) =>
    .json 200 (.lineage (lineage.chain.map withoutSecretHash) lineage.origin)
  -- the walk of the lineage always ends
  | _, .lineage none => .error 500 "internal error"
  | .createPolicy _ _ _, .policy policy => .json 201 (.policy policy)
  | _, .policy policy => .json 200 (.policy policy)
  | _, .rule rule => .json 201 (.redactionRule rule)
  | _, .registered identity credential =>
    .json 201 (.registered identity.id identity.subject credential)
  | .recordLogin username matched _, .done =>
    if matched then .json 200 (.session username)
    else .error 401 "invalid username, password, or authentication code"
  | .setDown system down, .done => .json 200 (.mockEndpoint system down)
  | .recordOutageToggle down _, .done => .json 200 (.outage down w.storeCircuitBreaker.state)
  | _, .done => ⟨204, none⟩

/-! ## Runs of requests -/

structure Reply where
  exchange : Exchange
  response : Response

inductive ServerAction where
  | arrive (a : Arrival)
  | resume (i : Nat) (downstream : Downstream)
  | clock (t : Int)
  | restart

section
variable (env : Env)

/-- A handler after a piece of its call: it waits, makes its next call, or responds. -/
def follow (ran : Config Exchange × Option (Settled Exchange)) : Config Exchange × Option Reply :=
  match ran.2 with
  | none => (ran.1, none)
  | some s =>
    match s.client.next ran.1.world s.call s.outcome with
    | none => (ran.1, some ⟨s.client, respond ran.1.world s.call s.outcome⟩)
    | some (x, call) =>
      let ran := ran.1.exec env (.call x call)
      (ran.1, ran.2.map fun s => ⟨s.client, respond ran.1.world s.call s.outcome⟩)

def serve (c : Config Exchange) : ServerAction → Config Exchange × Option Reply
  | .arrive a =>
    match a.handle env c.world with
    | .inl response => (c, some ⟨{ arrival := a }, response⟩)
    | .inr (x, call) => follow env (c.exec env (.call x call))
  | .resume i downstream => follow env (c.exec env (.resume i downstream))
  | .clock t => ((c.exec env (.clock t)).1, none)
  | .restart => ((c.exec env .restart).1, none)

/-- The runs of the server: any requests, in any order, each suspended at any of its awaits. -/
def serverMachine : Machine (Config Exchange) ServerAction where
  init := .initial env
  step c a := (serve env c a).1

/-- The responses of a run, in the order they are sent. -/
def replies (acts : List ServerAction) : List Reply :=
  (serverMachine env).outputs (fun c a => (serve env c a).2) acts

/-! ## The process behind it -/

/-- The actions of the process that follow a piece of a call at once. -/
def followUp (ran : Config Exchange × Option (Settled Exchange)) : List (Action Exchange) :=
  ((ran.2.bind fun s => s.client.next ran.1.world s.call s.outcome).map
    fun next => .call next.1 next.2).toList

/-- The actions of the process that an action of the server is made of. -/
def pieces (c : Config Exchange) : ServerAction → List (Action Exchange)
  | .arrive a =>
    match a.handle env c.world with
    | .inl _ => []
    | .inr (x, call) => .call x call :: followUp (c.exec env (.call x call))
  | .resume i downstream => .resume i downstream :: followUp (c.exec env (.resume i downstream))
  | .clock t => [.clock t]
  | .restart => [.restart]

/-- The actions of the process along a run of the server. -/
def processTrace (acts : List ServerAction) : List (Action Exchange) :=
  (serverMachine env).trace (pieces env) acts

end

variable {env : Env}

theorem follow_fst (ran : Config Exchange × Option (Settled Exchange)) :
    (follow env ran).1 = (followUp ran).foldl (Config.step env) ran.1 := by
  obtain ⟨c, output⟩ := ran
  cases output with
  | none => rfl
  | some s =>
    simp only [follow, followUp, Option.bind_some]
    cases s.client.next c.world s.call s.outcome with
    | none => rfl
    | some next => rfl

theorem serve_fst (c : Config Exchange) (a : ServerAction) :
    (serve env c a).1 = (pieces env c a).foldl (Config.step env) c := by
  cases a with
  | arrive a =>
    simp only [serve, pieces]
    cases a.handle env c.world with
    | inl response => rfl
    | inr next => exact follow_fst _
  | resume i downstream => exact follow_fst _
  | clock t => rfl
  | restart => rfl

/-- **The server is the process with its handlers**: each run of it is a run of the process. -/
theorem server_run (acts : List ServerAction) :
    (serverMachine env).run acts = (processMachine Exchange env).run (processTrace env acts) :=
  Machine.run_trace rfl serve_fst

end Ambit
