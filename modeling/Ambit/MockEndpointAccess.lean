import Ambit.Token

/-! `mockEndpointAccess.ts`: a downstream call through the Enforcement Gateway, with a timeout and
capped attempts. The awaits are the gateway's, the call's and the pause between two attempts. -/

namespace Ambit

open Effect

structure MockEndpointResult where
  system : MockSystem
  verb : String
  detail : String
  deriving DecidableEq

/-- What an accepted downstream call does first: answer, or run into the timeout. -/
inductive Downstream where
  | responded
  | timedOut
  deriving DecidableEq

inductive AccessResult where
  | success (result : MockEndpointResult)
  | unreachable
  | denied (reasonCode : EnforcementDenialReason)
  deriving DecidableEq

/-- The arguments of `accessMockEndpoint`. Its timeout and pause only decide how long an await
takes. -/
structure AccessInput where
  tokenId : String
  providedSecret : String
  system : MockSystem
  verb : String
  maxAttempts : Int
  now : Int

def AccessInput.action (input : AccessInput) : String := input.system.text ++ ":" ++ input.verb

/-- The loop variables: the subject, and the attempt under way. -/
structure AccessLoop where
  input : AccessInput
  subject : String
  attempt : Int

/-- A suspended `accessMockEndpoint`: in the gateway, in a downstream call that the registry
accepted or rejected, or in the pause after a failed attempt. -/
inductive AccessFrame where
  | enforcing (input : AccessInput) (enforce : EnforceFrame)
  | calling (loop : AccessLoop) (accepted : Bool)
  | sleeping (loop : AccessLoop) (lastError : Err)

def endpointUnreachable (system : MockSystem) : Err :=
  .endpointUnreachable (system.text ++ " endpoint is unreachable")

section
variable (env : Env)

def AccessLoop.record (loop : AccessLoop) (outcome : AccessOutcome) : Op Unit :=
  auditRecord env
    { tokenId := some loop.input.tokenId, subject := loop.subject, action := loop.input.action,
      decision := .allowed, outcome := some outcome } loop.input.now

/-- The head of the loop: another attempt, or the end after the last one. -/
def AccessLoop.next (loop : AccessLoop) (lastError : Err) :
    Op (Progress AccessFrame AccessResult) := do
  if loop.attempt ≤ loop.input.maxAttempts then
    return .awaiting (.calling loop (loop.input.system ∉ (← get).mockEndpoints))
  else
    match lastError with
    | .endpointUnreachable _ =>
      loop.record env .unreachable
      return .returned .unreachable
    | err => throw err

/-- The `catch` in the loop. -/
def AccessLoop.failed (loop : AccessLoop) (err : Err) : Op (Progress AccessFrame AccessResult) :=
  if loop.attempt < loop.input.maxAttempts then return .awaiting (.sleeping loop err)
  else { loop with attempt := loop.attempt + 1 }.next env err

/-- `accessMockEndpoint` after the gateway's decision. -/
def accessAfter (input : AccessInput) :
    EnforcementDecision → Op (Progress AccessFrame AccessResult)
  | .denied reasonCode _ => return .returned (.denied reasonCode)
  | .allowed => do
    let token ← TokenStore.get env input.tokenId
    let subject := match token with
      | some token => token.subject
      | none => "unknown"
    { input, subject, attempt := 1 : AccessLoop }.next env .undefinedThrown

def accessMockEndpoint (input : AccessInput) : Op (Progress AccessFrame AccessResult) := do
  match ← enforceToken env input.tokenId input.providedSecret input.action input.now with
  | .awaiting frame => return .awaiting (.enforcing input frame)
  | .returned decision => accessAfter env input decision

def AccessFrame.resume (downstream : Downstream) :
    AccessFrame → Op (Progress AccessFrame AccessResult)
  | .enforcing input frame => do accessAfter env input (← frame.resume env)
  | .calling loop accepted => do
    if accepted ∧ downstream = .responded then
      -- an error of the log is caught like one of the endpoint
      match ← attempt (loop.record env .success) with
      | .ok _ =>
        return .returned (.success
          { system := loop.input.system, verb := loop.input.verb,
            detail := loop.input.system.text ++ ":" ++ loop.input.verb ++ " succeeded" })
      | .error err => loop.failed env err
    else loop.failed env (endpointUnreachable loop.input.system)
  | .sleeping loop lastError => { loop with attempt := loop.attempt + 1 }.next env lastError

end

/-- `MockEndpointRegistry.setDown` -/
def setDown (system : MockSystem) (down : Bool) : Op Unit :=
  modify fun w => { w with
    mockEndpoints := if down then system :: w.mockEndpoints.filter (· ≠ system)
      else w.mockEndpoints.filter (· ≠ system) }

end Ambit
