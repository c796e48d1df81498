import Ambit.Token
import Ambit.Redaction

/-! `customerDataAccess.ts`: customer data through the Enforcement Gateway, redacted. -/

namespace Ambit

inductive CustomerDenialReason where
  | gateway (reasonCode : EnforcementDenialReason)
  | unknownCustomer
  | redactionRuleUnavailable
  deriving DecidableEq

def CustomerDenialReason.text : CustomerDenialReason → String
  | .gateway reasonCode => reasonCode.text
  | .unknownCustomer => "unknown_customer"
  | .redactionRuleUnavailable => "redaction_rule_unavailable"

inductive CustomerDataAccessResult where
  | data (data : CustomerRecord) (redactedFields : List String)
  | denied (reasonCode : CustomerDenialReason) (message : String)

def customerReadAction : String := "customer:read"

/-- The arguments of `accessCustomerData`. -/
structure CustomerAccessInput where
  tokenId : String
  providedSecret : String
  customerId : String
  redactionRuleId : String
  now : Int

/-- A suspended `accessCustomerData`: its one await is the gateway's. -/
structure CustomerAccessFrame where
  input : CustomerAccessInput
  enforce : EnforceFrame

section
variable (env : Env)

/-- Log a denial made behind the gateway and return it. -/
def denyCustomerAccess (input : CustomerAccessInput) (reasonCode : CustomerDenialReason)
    (message : String) : Op CustomerDataAccessResult := do
  auditRecord env
    { tokenId := some input.tokenId, action := customerReadAction, subject := "unknown",
      decision := .denied, reasonCode := some reasonCode.text, message := some message } input.now
  return .denied reasonCode message

def unknownCustomerMessage (customerId : String) : String :=
  "No customer found with id \"" ++ customerId ++ "\"."

def redactionRuleUnavailableMessage (redactionRuleId : String) : String :=
  "Redaction rule \"" ++ redactionRuleId ++ "\" could not be resolved — denying access rather " ++
    "than returning customer data with an unknown redaction policy applied."

/-- `accessCustomerData` after the gateway's decision. -/
def customerDataAfter (input : CustomerAccessInput) :
    EnforcementDecision → Op CustomerDataAccessResult
  | .denied reasonCode message => return .denied (.gateway reasonCode) message
  | .allowed => do
    match env.customerRegistry input.customerId with
    | none =>
      denyCustomerAccess env input .unknownCustomer (unknownCustomerMessage input.customerId)
    | some customer =>
      match (← get).redactionRuleStore.live.get input.redactionRuleId with
      | none =>
        denyCustomerAccess env input .redactionRuleUnavailable
          (redactionRuleUnavailableMessage input.redactionRuleId)
      | some rule =>
        let token ← TokenStore.get env input.tokenId
        let (subject, tokenScope) := match token with
          | some token => (token.subject, token.scope)
          | none => ("unknown", [])
        let result := applyRedaction customer rule tokenScope
        auditRecord env
          { tokenId := some input.tokenId, subject, action := customerReadAction,
            decision := .dataAccessed, redactedFields := some result.redactedFields } input.now
        return .data result.data result.redactedFields

def accessCustomerData (input : CustomerAccessInput) :
    Op (Progress CustomerAccessFrame CustomerDataAccessResult) := do
  match ← enforceToken env input.tokenId input.providedSecret customerReadAction input.now with
  | .awaiting enforce => return .awaiting { input, enforce }
  | .returned decision => return .returned (← customerDataAfter env input decision)

def CustomerAccessFrame.resume (frame : CustomerAccessFrame) : Op CustomerDataAccessResult := do
  customerDataAfter env frame.input (← frame.enforce.resume env)

end

end Ambit
