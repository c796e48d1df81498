import Ambit.Token

/-! `tokenRequest.ts`: a request waits for a human approver. Approval issues the token, and so has
the one await of this file, inside `issueToken`. -/

namespace Ambit

open Effect

/-- What `requestToken` is called with. -/
structure SubmittedRequest where
  subject : String
  scope : List String
  ttlSeconds : JsNumber
  parentTokenId : Option String := none
  idempotencyKey : Option String := none

section
variable (env : Env)

/-- `anomalyDetector.check` -/
def checkAnomaly (subject : String) (scope : List String) (now : Int) : Op AnomalyResult := do
  let w : World ← get
  let (result, detector) := w.anomalyDetector.check env.anomaly subject scope now
  set { w with anomalyDetector := detector }
  return result

/-- The part of `requestToken` after the idempotency check. -/
def submitRequest (request : SubmittedRequest) (primaryApprover : Option String) (now : Int) :
    Op PendingRequest := do
  let id ← draw env.randomUUID
  let pending : PendingRequest :=
    { subject := request.subject, scope := request.scope, ttlSeconds := request.ttlSeconds,
      parentTokenId := request.parentTokenId, id, status := .pending, requestedAt := now,
      idempotencyKey := request.idempotencyKey, assignedApprover := primaryApprover }
  RequestStore.save pending
  auditRecord env
    { requestId := some pending.id, subject := request.subject, action := "request_token",
      decision := .requestSubmitted } now
  let anomaly ← checkAnomaly env request.subject request.scope now
  (if anomaly.anomalous then
    auditRecord env
      { requestId := some pending.id, subject := request.subject, action := "anomaly_check",
        decision := .anomalyDetected,
        reasonCode := some (String.intercalate "," anomaly.signals) } now
  else pure ())
  return pending

/-- The request that a retry of the same submission finds. -/
def existingRequest (w : World) (request : SubmittedRequest) : Option PendingRequest :=
  (truthy request.idempotencyKey).bind (findByIdempotencyKey w request.subject)

def requestToken (request : SubmittedRequest) (primaryApprover : Option String) (now : Int) :
    Op PendingRequest := do
  match existingRequest (← get) request with
  | some existing => return existing
  | none => submitRequest env request primaryApprover now

/-! ## Decisions -/

def getPending (requestId verb : String) : Op PendingRequest := do
  match ← RequestStore.get requestId with
  | none =>
    throw (.unknownRequest
      ("cannot " ++ verb ++ " request \"" ++ requestId ++ "\" — no such request exists"))
  | some pending =>
    throwIf (pending.status ≠ .pending) (.requestNotPending
      ("request \"" ++ requestId ++ "\" is already " ++ pending.status.text))
    return pending

/-- Whether `approver` may decide the request. -/
def PendingRequest.eligible (pending : PendingRequest) (approver : String) : Prop :=
  pending.assignedApprover = none ∨ pending.assignedApprover = some approver

instance (pending : PendingRequest) (approver : String) : Decidable (pending.eligible approver) :=
  inferInstanceAs (Decidable (_ ∨ _))

def assertEligibleDecider (pending : PendingRequest) (approver action : String) (now : Int) :
    Op Unit := do
  if pending.eligible approver then pure ()
  else
    auditRecord env
      { requestId := some pending.id, subject := pending.subject, action,
        decision := .requestDecisionRejected, actor := some approver,
        reasonCode := some "not_assigned_approver" } now
    throw (.unauthorizedDecider
      ("\"" ++ approver ++ "\" is not the assigned approver for request \"" ++ pending.id ++
        "\" (\"" ++ pending.assignedApprover.getD "" ++ "\" is)"))

/-- The messages of the errors that `approveRequest` logs before it rethrows them. -/
def Err.approvalFailure : Err → Option String
  | .policyViolation message | .invalidScope message | .circuitOpen message => some message
  | _ => none

/-- The local variables of `approveRequest` up to its await. -/
structure ApprovalInput where
  requestId : String
  approver : String
  policyId : Option String
  now : Int

/-- The `catch` of `approveRequest`. -/
def catchApprovalFailure {α : Type} (input : ApprovalInput) (pending : PendingRequest)
    (issue : Op α) : Op α := do
  match ← attempt issue with
  | .ok value => return value
  | .error err =>
    (match err.approvalFailure with
      | some message =>
        auditRecord env
          { requestId := some input.requestId, subject := pending.subject,
            action := "approve_request", decision := .requestDenied, actor := some input.approver,
            reasonCode := some message } input.now
      | none => pure ())
    throw err

/-- A suspended `approveRequest`: the request as it was read before the await. -/
structure ApproveFrame where
  input : ApprovalInput
  pending : PendingRequest
  issue : IssueFrame

def approveRequest (input : ApprovalInput) : Op ApproveFrame := do
  let pending ← getPending input.requestId "approve"
  assertEligibleDecider env pending input.approver "approve_request" input.now
  let request : TokenRequest :=
    { subject := pending.subject, scope := pending.scope, ttlSeconds := pending.ttlSeconds,
      policyId := input.policyId }
  let issue ← catchApprovalFailure env input pending (issueToken env request true)
  return { input, pending, issue }

def ApproveFrame.resume (frame : ApproveFrame) : Op Token := do
  let issued ← catchApprovalFailure env frame.input frame.pending (frame.issue.resume env)
  RequestStore.save
    { frame.pending with
      status := .approved, tokenId := some issued.token.id, tokenSecret := some issued.secret }
  auditRecord env
    { requestId := some frame.input.requestId, tokenId := some issued.token.id,
      policyId := frame.input.policyId, subject := frame.pending.subject,
      action := "approve_request", decision := .requestApproved,
      actor := some frame.input.approver } frame.input.now
  return issued.token

def denyRequest (requestId approver : String) (reasonCode : DenialReason) (now : Int) :
    Op Unit := do
  let pending ← getPending requestId "deny"
  assertEligibleDecider env pending approver "deny_request" now
  RequestStore.save { pending with status := .denied }
  auditRecord env
    { requestId := some requestId, subject := pending.subject, action := "deny_request",
      decision := .requestDenied, actor := some approver, reasonCode := some reasonCode.text } now

/-- The request is still pending, not yet with the backup, and its decision window has passed. -/
def PendingRequest.escalates (pending : PendingRequest) (decisionWindowMs : JsNumber)
    (backupApprover : String) (now : Int) : Prop :=
  pending.status = .pending ∧ pending.assignedApprover ≠ some backupApprover ∧
    (JsNumber.finite (now - pending.requestedAt : Int)).lt decisionWindowMs = false

instance (pending : PendingRequest) (decisionWindowMs : JsNumber) (backupApprover : String)
    (now : Int) : Decidable (pending.escalates decisionWindowMs backupApprover now) :=
  inferInstanceAs (Decidable (_ ∧ _ ∧ _))

def checkRequestTimeout (requestId : String) (decisionWindowMs : JsNumber)
    (backupApprover : Option String) (now : Int) : Op Unit := do
  match truthy backupApprover with
  | none => pure ()
  | some backup =>
    match ← RequestStore.get requestId with
    | none => pure ()
    | some pending =>
      if pending.escalates decisionWindowMs backup now then
        RequestStore.save { pending with assignedApprover := some backup }
        auditRecord env
          { requestId := some pending.id, subject := pending.subject,
            action := "escalate_request", decision := .requestEscalated,
            reasonCode := some "decision_window_expired" } now
      else pure ()

/-! ## The secret -/

def claimTokenSecret (requestId requestingSubject : String) (now : Int) :
    Op (String × String) := do
  match ← RequestStore.get requestId with
  | none =>
    throw (.unknownRequest
      ("cannot claim a token secret for request \"" ++ requestId ++
        "\" — no such request exists"))
  | some pending =>
    if pending.subject ≠ requestingSubject then
      auditRecord env
        { requestId := some requestId, subject := requestingSubject,
          action := "claim_token_secret", decision := .denied,
          reasonCode := some "wrong_subject",
          message := some ("Credential authenticated as \"" ++ requestingSubject ++
            "\", but request \"" ++ requestId ++ "\" was submitted by \"" ++ pending.subject ++
            "\" — only the original requester can claim its token's secret.") } now
      throw (.wrongSubject
        ("request \"" ++ requestId ++ "\" was not submitted by \"" ++ requestingSubject ++ "\""))
    else
      match pending.status, truthy pending.tokenId, truthy pending.tokenSecret with
      | .approved, some tokenId, some secret =>
        RequestStore.save { pending with tokenSecret := none }
        auditRecord env
          { requestId := some requestId, tokenId := some tokenId, subject := requestingSubject,
            action := "claim_token_secret", decision := .tokenSecretClaimed } now
        return (tokenId, secret)
      | .approved, some _, none =>
        throw (.tokenSecretAlreadyClaimed
          ("the secret for request \"" ++ requestId ++
            "\"'s token was already claimed once — it cannot be retrieved again"))
      | _, _, _ =>
        throw (.requestNotApproved
          ("request \"" ++ requestId ++ "\" is \"" ++ pending.status.text ++
            "\" — no token has been issued for it yet"))

end

end Ambit
