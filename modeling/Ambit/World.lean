import Ambit.AuditLog
import Ambit.AnomalyDetector
import Ambit.CircuitBreaker
import Ambit.Records
import Ambit.Lib.Effect
import Ambit.Lib.Journal

/-! The state of one server process with its data directory, and the operations of the stores on
it. An operation updates the state and may throw; an exception keeps the state it was thrown in. -/

namespace Ambit

/-- A customer record by its own fields. -/
abbrev CustomerRecord := OrderedMap String String

/-- A deployment: the platform, the configuration and the customer registry. -/
structure Env extends Platform where
  audit : AuditConfig
  circuitBreaker : CircuitBreakerConfig
  anomaly : AnomalyDetectorConfig
  customerRegistry : String → Option CustomerRecord

structure World where
  tokenStore : Journal String Token
  requestStore : Journal String PendingRequest
  policyStore : Journal String Policy
  agentIdentityStore : Journal String AgentIdentity
  redactionRuleStore : Journal String RedactionRule
  auditLog : AuditLog
  storeCircuitBreaker : CircuitBreaker
  anomalyDetector : AnomalyDetector
  /-- The mock systems that are down. -/
  mockEndpoints : List MockSystem
  clock : Int
  /-- How many random values have been drawn. -/
  supply : Nat
  /-- Which of the next file operations fail; those after the end of the list succeed. -/
  faults : List Bool

abbrev Op := EStateM Err World

namespace World

/-- A process started on an empty data directory. -/
def initial : World where
  tokenStore := .empty
  requestStore := .empty
  policyStore := .empty
  agentIdentityStore := .empty
  redactionRuleStore := .empty
  auditLog := .empty
  storeCircuitBreaker := .initial
  anomalyDetector := ⟨.empty⟩
  mockEndpoints := []
  clock := 0
  supply := 0
  faults := []

/-- A clean restart: the stores and the log are read back from their files, everything else
starts anew. -/
def restart (env : Env) (w : World) : World where
  tokenStore := w.tokenStore.reopen Token.id
  requestStore := w.requestStore.reopen PendingRequest.id
  policyStore := w.policyStore.reopen Policy.id
  agentIdentityStore := w.agentIdentityStore.reopen AgentIdentity.id
  redactionRuleStore := w.redactionRuleStore.reopen RedactionRule.id
  auditLog := .construct env.audit w.auditLog.files
  storeCircuitBreaker := .initial
  anomalyDetector := ⟨.empty⟩
  mockEndpoints := []
  clock := w.clock
  supply := w.supply
  faults := w.faults

end World

open Effect

/-! ## Clock, randomness, audit -/

/-- `new Date()` -/
def now : Op Int := return (← get).clock

/-- Draw the next random value. -/
def draw {α : Type} (value : Nat → α) : Op α := do
  let w ← get
  set { w with supply := w.supply + 1 }
  return value w.supply

/-- Whether the next file operation fails, and the failures after it. -/
def nextFault (faults : List Bool) : Bool × List Bool := (faults.headD false, faults.tail)

section
variable (env : Env)

/-- `auditLog.record` -/
def auditRecord (entry : AuditEntryInput) (now : Int) : Op Unit := fun w =>
  let (renameFails, faults) := nextFault w.faults
  let (appendFails, faults) := nextFault faults
  let (result, log) := w.auditLog.record env.toPlatform env.audit ⟨!renameFails, !appendFails⟩
    (env.randomUUID w.supply) entry now
  let w := { w with auditLog := log, supply := w.supply + 1, faults }
  match result with
  | .ok _ => .ok () w
  | .error err => .error err w

/-! ## The circuit breaker around the token and policy stores -/

def circuitEntry (decision : Decision) (reason : CircuitTransitionReason) : AuditEntryInput :=
  { subject := "system", action := "policy_token_store", decision, reasonCode := some reason.text }

/-- The `onStateChange` callback: the two resolutions are logged, the half-open probe is not. -/
def onStateChange (change : CircuitStateChange) : Op Unit := do
  let now ← now
  match change.target with
  | .opened => auditRecord env (circuitEntry .circuitOpened change.reason) now
  | .closed => auditRecord env (circuitEntry .circuitClosed change.reason) now
  | .halfOpen => pure ()

/-- Apply a transition of the breaker and report the change it makes. -/
def breakerTransition (f : CircuitBreaker → CircuitBreaker × Option CircuitStateChange) :
    Op Unit := do
  let w ← get
  let (b, change) := f w.storeCircuitBreaker
  set { w with storeCircuitBreaker := b }
  match change with
  | some change => onStateChange env change
  | none => pure ()

/-- `CircuitBreaker.execute` -/
def execute {α : Type} (fn : Op α) : Op α := do
  let w ← get
  let now := w.clock
  let b := w.storeCircuitBreaker
  if b.state = .opened ∧ now - b.openedAt < env.circuitBreaker.cooldownMs then
    throw (.circuitOpen circuitOpenMessage)
  else
    -- the cooldown has elapsed: this call is the trial probe
    let probe : CircuitBreaker := if b.state = .opened then { b with state := .halfOpen } else b
    set { w with storeCircuitBreaker := probe }
    let outcome ← attempt do
      if b.simulatingOutage then throw (.circuitOpen "simulated outage")
      else
        let result ← fn
        breakerTransition env CircuitBreaker.onSuccess
        return result
    match outcome with
    | .ok result => return result
    | .error err =>
      breakerTransition env (CircuitBreaker.onFailure env.circuitBreaker now)
      throw err

end

/-! ## The stores -/

/-- Write a record to a store's file after its map: the map keeps it even if the append fails. A failing
append is one that writes nothing (the directory cannot be made, or the file not opened). -/
def saveRecord {α : Type} (key : α → String) (image : α → α) (store : World → Journal String α)
    (put : World → Journal String α → World) (record : α) : Op Unit := fun w =>
  let (fails, faults) := nextFault w.faults
  let w' := put { w with faults } ((store w).save key image (!fails) record)
  if fails then .error .io w' else .ok () w'

namespace TokenStore

def save (env : Env) (token : Token) : Op Unit :=
  execute env <| saveRecord Token.id Token.image World.tokenStore
    (fun w store => { w with tokenStore := store }) token

def get (env : Env) (id : String) : Op (Option Token) :=
  execute env do return (← MonadState.get).tokenStore.live.get id

end TokenStore

/-- `childrenOf`: direct children only. -/
def childrenOf (w : World) (parentId : String) : List Token :=
  w.tokenStore.live.values.filter fun t => t.parentTokenId = some parentId

namespace RequestStore

def save (request : PendingRequest) : Op Unit :=
  saveRecord PendingRequest.id PendingRequest.image World.requestStore
    (fun w store => { w with requestStore := store }) request

def get (id : String) : Op (Option PendingRequest) :=
  return (← MonadState.get).requestStore.live.get id

end RequestStore

/-- `requestStore.pending()` -/
def pendingRequests (w : World) : List PendingRequest :=
  w.requestStore.live.values.filter fun r => r.status = .pending

def findByIdempotencyKey (w : World) (subject idempotencyKey : String) : Option PendingRequest :=
  w.requestStore.live.values.find? fun r =>
    r.subject = subject ∧ r.idempotencyKey = some idempotencyKey

namespace PolicyStore

def save (env : Env) (policy : Policy) : Op Unit :=
  execute env <| saveRecord Policy.id Policy.image World.policyStore
    (fun w store => { w with policyStore := store }) policy

def get (env : Env) (id : String) : Op (Option Policy) :=
  execute env do return (← MonadState.get).policyStore.live.get id

end PolicyStore

namespace AgentIdentityStore

def save (identity : AgentIdentity) : Op Unit :=
  saveRecord AgentIdentity.id (fun i => i) World.agentIdentityStore
    (fun w store => { w with agentIdentityStore := store }) identity

end AgentIdentityStore

def findBySubject (w : World) (subject : String) : Option AgentIdentity :=
  w.agentIdentityStore.live.values.find? fun i => i.subject = subject

namespace RedactionRuleStore

def save (rule : RedactionRule) : Op Unit :=
  saveRecord RedactionRule.id (fun r => r) World.redactionRuleStore
    (fun w store => { w with redactionRuleStore := store }) rule

end RedactionRuleStore

end Ambit
