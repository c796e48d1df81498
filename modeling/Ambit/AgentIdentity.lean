import Ambit.PasswordHash
import Ambit.World
import Ambit.Token

/-! `agentIdentity.ts`: registered agents and their credentials, `<identity id>.<secret>`. -/

namespace Ambit

open Effect

/-- A suspended `registerAgentIdentity`. -/
structure RegisterFrame where
  subject : String
  createdBy : String
  now : Int
  id : String
  secret : String
  salt : List UInt8

/-- A suspended `authenticateAgent`: the identity as it was read, and the secret offered for it. -/
structure AuthenticateFrame where
  identity : AgentIdentity
  secret : String

section
variable (env : Env)

/-- `validate` -/
def validateAgentIdentity (subject : String) : Op Unit := do
  throwIf (isBlank subject) (.invalidAgentIdentity "subject is required")
  throwIf (findBySubject (← get) subject ≠ none) (.duplicateAgentIdentity
    ("an agent identity for subject \"" ++ subject ++ "\" already exists"))

def registerAgentIdentity (subject createdBy : String) (now : Int) : Op RegisterFrame := do
  validateAgentIdentity subject
  let id ← draw env.randomUUID
  let secret ← draw env.randomSecret
  let salt ← draw env.randomSalt
  return { subject, createdBy, now, id, secret, salt }

/-- The registered identity with its credential. -/
def RegisterFrame.resume (frame : RegisterFrame) : Op (AgentIdentity × String) := do
  let secretHash := hashPassword env.toPlatform frame.secret frame.salt
  let identity : AgentIdentity :=
    { id := frame.id, subject := frame.subject, secretHash, createdBy := frame.createdBy,
      createdAt := frame.now }
  AgentIdentityStore.save identity
  auditRecord env
    { subject := frame.subject, action := "register_agent_identity",
      decision := .agentIdentityRegistered, actor := some frame.createdBy } frame.now
  return (identity, frame.id ++ "." ++ frame.secret)

/-- The two halves of a credential: cut at the first dot, neither half empty. -/
def splitCredential (credential : String) : Option (String × String) :=
  match credential.toList.span (· ≠ '.') with
  | (id, _ :: secret) =>
    if id = [] ∨ secret = [] then none else some (String.ofList id, String.ofList secret)
  | (_, []) => none

def authenticateAgent (credential : String) :
    Op (Progress AuthenticateFrame (Option AgentIdentity)) := do
  match splitCredential credential with
  | none => return .returned none
  | some (id, secret) =>
    match (← get).agentIdentityStore.live.get id with
    | none => return .returned none
    | some identity => return .awaiting { identity, secret }

def AuthenticateFrame.resume (frame : AuthenticateFrame) : Option AgentIdentity :=
  if verifyPassword env.toPlatform frame.secret frame.identity.secretHash then
    some frame.identity
  else none

end

end Ambit
