import Ambit.Delegation
import Ambit.TokenRequest
import Ambit.MockEndpointAccess
import Ambit.CustomerDataAccess
import Ambit.Policy
import Ambit.AgentIdentity
import Ambit.Lib.Machine

/-! The process as its clients see it: calls start, run to their next await, and are resumed one at
a time in any order. A client names its call by a value of any type, and gets the outcome under
that name. A call's `now` is any time: the default of the sources, the clock, is one of them. -/

namespace Ambit

open Effect

inductive Call where
  | requestToken (request : SubmittedRequest) (primaryApprover : Option String) (now : Int)
  | approveRequest (input : ApprovalInput)
  | denyRequest (requestId approver : String) (reasonCode : DenialReason) (now : Int)
  | checkRequestTimeout (requestId : String) (decisionWindowMs : JsNumber)
      (backupApprover : Option String) (now : Int)
  | claimTokenSecret (requestId requestingSubject : String) (now : Int)
  | delegateToken (input : DelegationInput)
  | enforceToken (tokenId providedSecret action : String) (now : Int)
  | accessMockEndpoint (input : AccessInput)
  | accessCustomerData (input : CustomerAccessInput)
  | revokeToken (tokenId : String) (reasonCode : RevocationReason) (now : Int)
      (actor : Option String)
  | getTokenLineage (tokenId : String)
  | createPolicy (input : PolicyInput) (authoredBy : String) (now : Int)
  | modifyPolicy (policyId : String) (changes : PolicyChanges) (authoredBy : String) (now : Int)
  | createRedactionRule (input : RedactionRuleInput) (authoredBy : String) (now : Int)
  | registerAgentIdentity (subject createdBy : String) (now : Int)
  | authenticateAgent (credential : String)
  | recordLogin (username : String) (matched : Bool) (now : Int)
  | simulateOutage (down : Bool)
  | recordOutageToggle (down : Bool) (now : Int)
  | setDown (system : MockSystem) (down : Bool)

/-- A suspended call. -/
inductive Frame where
  | approve (frame : ApproveFrame)
  | delegate (frame : DelegateFrame)
  | enforce (frame : EnforceFrame)
  | access (frame : AccessFrame)
  | customer (frame : CustomerAccessFrame)
  | register (frame : RegisterFrame)
  | authenticate (frame : AuthenticateFrame)

/-- What a finished call hands back: its value, or the error it threw. -/
inductive Outcome where
  | done
  | request (pending : PendingRequest)
  | token (token : Token)
  | claimed (tokenId secret : String)
  | delegation (decision : DelegationDecision)
  | enforcement (decision : EnforcementDecision)
  | access (result : AccessResult)
  | customer (result : CustomerDataAccessResult)
  | lineage (lineage : Option TokenLineage)
  | policy (policy : Policy)
  | rule (rule : RedactionRule)
  | registered (identity : AgentIdentity) (credential : String)
  | identity (identity : Option AgentIdentity)
  | failed (err : Err)

/-- The `auditLog.record` calls of the login route. -/
def recordLogin (env : Env) (username : String) (matched : Bool) (now : Int) : Op Unit :=
  if matched then
    auditRecord env { subject := username, action := "login", decision := .allowed } now
  else
    auditRecord env
      { subject := username, action := "login", decision := .denied,
        reasonCode := some "invalid_credentials" } now

def simulateOutage (down : Bool) : Op Unit :=
  modify fun w => { w with storeCircuitBreaker := w.storeCircuitBreaker.simulateOutage down }

/-- The `auditLog.record` call of the fault-injection route. -/
def recordOutageToggle (env : Env) (down : Bool) (now : Int) : Op Unit :=
  auditRecord env
    { subject := "system", action := "circuit_breaker_simulate_outage",
      decision := if down then .circuitOpened else .circuitClosed, actor := some "admin-toggle",
      reasonCode := some "manual_fault_injection" } now

namespace Progress

variable {φ ψ α β : Type}

def map (onFrame : φ → ψ) (onValue : α → β) : Progress φ α → Progress ψ β
  | .returned value => .returned (onValue value)
  | .awaiting frame => .awaiting (onFrame frame)

end Progress

section
variable (env : Env)

/-- A call that never awaits. -/
def synchronously {α : Type} (op : Op α) (outcome : α → Outcome) : Op (Progress Frame Outcome) := do
  return .returned (outcome (← op))

theorem after_synchronously {α : Type} {op : Op α} {outcome : α → Outcome} {w : World} :
    after (synchronously op outcome) w = after op w := by
  cases hrun : op w with
  | ok value w' =>
    rw [after, synchronously, bind_of_ok hrun, after, hrun]
    rfl
  | error err w' => rw [after, synchronously, bind_of_error hrun, after, hrun]

/-- A call from its start to its first await. -/
def startCall : Call → Op (Progress Frame Outcome)
  | .requestToken request primaryApprover now =>
    synchronously (requestToken env request primaryApprover now) .request
  | .approveRequest input => return .awaiting (.approve (← approveRequest env input))
  | .denyRequest requestId approver reasonCode now =>
    synchronously (denyRequest env requestId approver reasonCode now) fun _ => .done
  | .checkRequestTimeout requestId decisionWindowMs backupApprover now =>
    synchronously (checkRequestTimeout env requestId decisionWindowMs backupApprover now)
      fun _ => .done
  | .claimTokenSecret requestId requestingSubject now =>
    synchronously (claimTokenSecret env requestId requestingSubject now) fun c => .claimed c.1 c.2
  | .delegateToken input => return (← delegateToken env input).map .delegate .delegation
  | .enforceToken tokenId providedSecret action now =>
    return (← enforceToken env tokenId providedSecret action now).map .enforce .enforcement
  | .accessMockEndpoint input => return (← accessMockEndpoint env input).map .access .access
  | .accessCustomerData input => return (← accessCustomerData env input).map .customer .customer
  | .revokeToken tokenId reasonCode now actor =>
    synchronously (revokeToken env tokenId reasonCode now actor) .token
  | .getTokenLineage tokenId => do
    let fuel := (← get).tokenStore.live.values.length + 1
    synchronously (getTokenLineage env fuel tokenId) .lineage
  | .createPolicy input authoredBy now =>
    synchronously (createPolicy env input authoredBy now) .policy
  | .modifyPolicy policyId changes authoredBy now =>
    synchronously (modifyPolicy env policyId changes authoredBy now) .policy
  | .createRedactionRule input authoredBy now =>
    synchronously (createRedactionRule env input authoredBy now) .rule
  | .registerAgentIdentity subject createdBy now =>
    return .awaiting (.register (← registerAgentIdentity env subject createdBy now))
  | .authenticateAgent credential =>
    return (← authenticateAgent credential).map .authenticate .identity
  | .recordLogin username matched now =>
    synchronously (recordLogin env username matched now) fun _ => .done
  | .simulateOutage down => synchronously (simulateOutage down) fun _ => .done
  | .recordOutageToggle down now =>
    synchronously (recordOutageToggle env down now) fun _ => .done
  | .setDown system down => synchronously (setDown system down) fun _ => .done

/-- A suspended call from its await to the next one or to its end. -/
def resumeFrame (downstream : Downstream) : Frame → Op (Progress Frame Outcome)
  | .approve frame => synchronously (frame.resume env) .token
  | .delegate frame => return (← frame.resume env).map .delegate .delegation
  | .enforce frame => synchronously (frame.resume env) .enforcement
  | .access frame => return (← frame.resume env downstream).map .access .access
  | .customer frame => synchronously (frame.resume env) .customer
  | .register frame => synchronously (frame.resume env) fun r => .registered r.1 r.2
  | .authenticate frame => return .returned (.identity (frame.resume env))

end

/-! ## Interleavings -/

structure InFlight (κ : Type) where
  client : κ
  call : Call
  frame : Frame

structure Config (κ : Type) where
  world : World
  inflight : List (InFlight κ)

inductive Action (κ : Type) where
  | call (client : κ) (call : Call)
  | resume (i : Nat) (downstream : Downstream)
  | clock (t : Int)
  | restart

/-- A call that has ended, with its outcome. -/
structure Settled (κ : Type) where
  client : κ
  call : Call
  outcome : Outcome

/-- The process starts on the data directory as it stands. -/
def World.boot (env : Env) (w : World) : World :=
  match defaultRedactionRule env w with
  | .ok _ w' => w'
  | .error _ w' => w'

namespace Config

variable {κ : Type} (env : Env)

/-- The configuration after a call ran to its next await or its end. -/
def settle (client : κ) (call : Call) (inflight : List (InFlight κ)) :
    EStateM.Result Err World (Progress Frame Outcome) → Config κ × Option (Settled κ)
  | .ok (.returned outcome) world => (⟨world, inflight⟩, some ⟨client, call, outcome⟩)
  | .ok (.awaiting frame) world => (⟨world, inflight ++ [⟨client, call, frame⟩]⟩, none)
  | .error err world => (⟨world, inflight⟩, some ⟨client, call, .failed err⟩)

theorem settle_world {client : κ} {call : Call} {inflight : List (InFlight κ)}
    {x : Op (Progress Frame Outcome)} {w : World} :
    (settle client call inflight (x w)).1.world = after x w := by
  unfold settle after
  rcases x w with ⟨_ | _, _⟩ | _ <;> rfl

def exec (c : Config κ) : Action κ → Config κ × Option (Settled κ)
  | .call client call => settle client call c.inflight (startCall env call c.world)
  | .resume i downstream =>
    match c.inflight[i]? with
    | none => (c, none)
    | some e =>
      settle e.client e.call (c.inflight.eraseIdx i) (resumeFrame env downstream e.frame c.world)
  | .clock t => ({ c with world := { c.world with clock := t } }, none)
  | .restart => (⟨(c.world.restart env).boot env, []⟩, none)

def step (c : Config κ) (a : Action κ) : Config κ := (c.exec env a).1

/-- A process started on an empty data directory. -/
def initial : Config κ := ⟨World.initial.boot env, []⟩

end Config

/-- The runs of the process: any calls, in any interleaving. -/
def processMachine (κ : Type) (env : Env) : Machine (Config κ) (Action κ) where
  init := .initial env
  step := Config.step env

end Ambit
