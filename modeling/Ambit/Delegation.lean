import Ambit.Token

/-! `delegation.ts`: a holder of a token mints a narrower one from it. Two awaits: the possession
check of the parent, then the hash of the child's secret. -/

namespace Ambit

open Effect

inductive DelegationDenialReason where
  | parentInvalid
  | emptyScope
  | exceedsParentScope
  | notNarrower
  | storeUnavailable
  | invalidCredential
  deriving DecidableEq

def DelegationDenialReason.text : DelegationDenialReason → String
  | .parentInvalid => "parent_invalid"
  | .emptyScope => "empty_scope"
  | .exceedsParentScope => "exceeds_parent_scope"
  | .notNarrower => "not_narrower"
  | .storeUnavailable => "store_unavailable"
  | .invalidCredential => "invalid_credential"

inductive DelegationDecision where
  | approved (token : Token) (secret : String)
  | denied (reasonCode : DelegationDenialReason)

/-- The arguments of `delegateToken`. -/
structure DelegationInput where
  parentTokenId : String
  providedParentSecret : String
  childSubject : String
  requestedScope : List String
  ttlSeconds : JsNumber
  now : Int

/-- A suspended `delegateToken`: at the possession check with the parent as it was read, or at the
hash of the child's secret. -/
inductive DelegateFrame where
  | verifying (input : DelegationInput) (parent : Token)
  | issuing (input : DelegationInput) (issue : IssueFrame)

section
variable (env : Env)

/-- `deny` -/
def denyDelegation (input : DelegationInput) (reasonCode : DelegationDenialReason) :
    Op DelegationDecision := do
  auditRecord env
    { tokenId := some input.parentTokenId, subject := input.childSubject, action := "delegate",
      decision := .denied, reasonCode := some reasonCode.text } input.now
  return .denied reasonCode

def delegateToken (input : DelegationInput) : Op (Progress DelegateFrame DelegationDecision) := do
  match ← attempt (TokenStore.get env input.parentTokenId) with
  | .error (.circuitOpen _) => return .returned (← denyDelegation env input .storeUnavailable)
  | .error err => throw err
  | .ok none => return .returned (← denyDelegation env input .parentInvalid)
  | .ok (some parent) => return .awaiting (.verifying input parent)

/-- The reason to refuse the delegation that shows in the parent as it was read. -/
def delegationDenial (input : DelegationInput) (parent : Token) : Option DelegationDenialReason :=
  if !verifyPassword env.toPlatform input.providedParentSecret parent.secretHash then
    some .invalidCredential
  else if ¬ (parent.status = .active ∧ (Date.ms input.now).getTime.lt parent.expiresAt.getTime) then
    some .parentInvalid
  else if input.requestedScope = [] then some .emptyScope
  else if ¬ input.requestedScope ⊆ parent.scope then some .exceedsParentScope
  else if ¬ (∃ s ∈ parent.scope, s ∉ input.requestedScope) then some .notNarrower
  else none

/-- The `catch` around `issueToken`: a rejection by the circuit breaker is a denial. -/
def catchCircuitOpen {α : Type} (input : DelegationInput) (result : Except Err α)
    (k : α → Op (Progress DelegateFrame DelegationDecision)) :
    Op (Progress DelegateFrame DelegationDecision) := do
  match result with
  | .ok value => k value
  | .error (.circuitOpen _) => return .returned (← denyDelegation env input .storeUnavailable)
  | .error err => throw err

def DelegateFrame.resume : DelegateFrame → Op (Progress DelegateFrame DelegationDecision)
  | .verifying input parent => do
    match delegationDenial env input parent with
    | some reasonCode => return .returned (← denyDelegation env input reasonCode)
    | none =>
      let request : TokenRequest :=
        { subject := input.childSubject, scope := input.requestedScope,
          ttlSeconds := input.ttlSeconds, parentTokenId := some input.parentTokenId }
      let issue ← attempt (issueToken env request false)
      catchCircuitOpen env input issue fun issue => return .awaiting (.issuing input issue)
  | .issuing input issue => do
    let issued ← attempt (issue.resume env)
    catchCircuitOpen env input issued fun issued => do
      auditRecord env
        { tokenId := some issued.token.id, subject := input.childSubject, action := "delegate",
          decision := .allowed } input.now
      return .returned (.approved issued.token issued.secret)

end

end Ambit
