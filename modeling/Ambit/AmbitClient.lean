import Ambit.IdempotentSubmission

/-! `ambitClient.ts`: the SDK's `requestToken` with its timeout-and-retry loop, and a network between
any number of its calls and the server that may lose, delay and reorder what they send. -/

namespace Ambit

open Effect

/-! ## The client -/

structure AmbitClientConfig where
  agentCredential : Option String := none
  maxAttempts : JsNumber := .finite 3

structure RequestTokenParams where
  scope : List String
  ttlSeconds : JsNumber
  policyId : Option String := none
  idempotencyKey : Option String := none
  deriving DecidableEq

/-- Where a call stands: its `fetch` is out, it sleeps before its next attempt, it has returned the
payload of a response, or it has thrown an `AmbitClientError` with a status. -/
inductive ClientPhase where
  | waiting
  | sleeping (lastStatus : Nat)
  | returned (payload : Option Body)
  | failed (status : Nat)

/-- A call of `requestToken` on a client. -/
structure ClientCall where
  config : AmbitClientConfig
  params : RequestTokenParams
  /-- The number of the last attempt that was made. -/
  attempt : Nat
  phase : ClientPhase

/-- The `POST /requests` of an attempt. -/
structure Post where
  connection : Connection
  agentCredential : String
  params : RequestTokenParams
  deriving DecidableEq

namespace ClientCall

variable (call : ClientCall)

/-- The attempts that the loop of `#send` is given. -/
def maxAttempts : JsNumber :=
  if (truthy call.params.idempotencyKey).isSome then call.config.maxAttempts else .finite 1

/-- The head of the loop: the next attempt, or the end of the loop. -/
def next (lastStatus : Nat) : ClientCall :=
  if (JsNumber.finite (call.attempt + 1 : Nat)).le call.maxAttempts then
    { call with attempt := call.attempt + 1, phase := .waiting }
  else { call with phase := .failed lastStatus }

/-- `requestToken`, up to its first await. -/
def start (config : AmbitClientConfig) (params : RequestTokenParams) : ClientCall :=
  let call : ClientCall := { config, params, attempt := 0, phase := .failed 0 }
  if (truthy config.agentCredential).isSome then call.next 0 else call

/-- The `catch` of an attempt. -/
def fails (status : Nat) : ClientCall :=
  let retryable := status = 0 ∨ 500 ≤ status
  if ¬ retryable ∨ call.maxAttempts.le (.finite call.attempt) then
    { call with phase := .failed status }
  else { call with phase := .sleeping status }

/-- An attempt whose response arrives; a body that does not parse is dropped. -/
def receives (response : Response) (truncated : Bool) : ClientCall :=
  if response.ok then
    { call with phase := .returned (if truncated then none else response.body) }
  else call.fails response.status

/-- The request of the attempt that a call waits for. -/
def post (index : Nat) : Option Post :=
  match call.phase, call.config.agentCredential with
  | .waiting, some agentCredential =>
    some ⟨⟨index, call.attempt⟩, agentCredential, call.params⟩
  | _, _ => none

end ClientCall

/-- A number through JSON: what is not finite becomes `null`. -/
def jsonNumber : JsNumber → Option JsNumber
  | .finite q => some (.finite q)
  | _ => none

/-- The route that a post asks for, with the fields of its body. -/
def Post.route (post : Post) : Route :=
  .submit (some post.params.scope) (jsonNumber post.params.ttlSeconds) post.params.idempotencyKey

/-- A post as it arrives, with what the server finds about it when it does. -/
def Post.arrival (post : Post) (overLimit : Bool) (settings : Settings) : Arrival where
  route := post.route
  authorization := some ("Bearer " ++ post.agentCredential)
  overLimit := overLimit
  settings := settings
  connection := some post.connection

/-! ## The network -/

structure Network where
  server : Config Exchange
  calls : List ClientCall
  requests : List Post
  responses : List (Connection × Response)

inductive NetworkAction where
  /-- A client calls `requestToken`. -/
  | invoke (config : AmbitClientConfig) (params : RequestTokenParams)
  | deliverRequest (i : Nat) (overLimit : Bool) (settings : Settings)
  | loseRequest (i : Nat)
  | deliverResponse (i : Nat) (truncated : Bool)
  | loseResponse (i : Nat)
  /-- A timeout, or a connection that fails, at the client. -/
  | giveUp (call : Nat)
  /-- The delay before a retry is over. -/
  | wake (call : Nat)
  /-- Anything else on the server: requests of other clients, resumed calls, time, restarts. -/
  | server (a : ServerAction)

namespace Network

section
variable (env : Env) (n : Network)

/-- The network after a step of the server, with the response that it sends to a call. -/
def afterServer (ran : Config Exchange × Option Reply) : Network :=
  { n with
    server := ran.1
    responses := n.responses ++ (ran.2.bind fun reply =>
      reply.exchange.arrival.connection.map (·, reply.response)).toList }

/-- The server's part of an action. -/
def serverAction : NetworkAction → Option ServerAction
  | .deliverRequest i overLimit settings =>
    n.requests[i]?.map fun post => .arrive (post.arrival overLimit settings)
  | .server (.arrive a) => some (.arrive { a with connection := none })
  | .server a => some a
  | _ => none

/-- The call that an action moves, with its number. -/
def movedCall : NetworkAction → Option (Nat × ClientCall)
  | .invoke config params => some (n.calls.length, .start config params)
  | .deliverResponse i truncated =>
    n.responses[i]?.bind fun (connection, response) =>
      n.calls[connection.call]?.bind fun call =>
        match call.phase with
        | .waiting =>
          -- the response to an attempt that was given up goes nowhere
          if call.attempt = connection.attempt then
            some (connection.call, call.receives response truncated)
          else none
        | _ => none
  | .giveUp i =>
    n.calls[i]?.bind fun call =>
      match call.phase with
      | .waiting => some (i, call.fails 0)
      | _ => none
  | .wake i =>
    n.calls[i]?.bind fun call =>
      match call.phase with
      | .sleeping lastStatus => some (i, call.next lastStatus)
      | _ => none
  | _ => none

/-- The post that an action sends. -/
def sentPost (a : NetworkAction) : Option Post :=
  (n.movedCall a).bind fun (index, call) => call.post index

/-- The messages that an action takes from the network. -/
def take : NetworkAction → Network
  | .deliverRequest i _ _ | .loseRequest i => { n with requests := n.requests.eraseIdx i }
  | .deliverResponse i _ | .loseResponse i => { n with responses := n.responses.eraseIdx i }
  | _ => n

/-- The calls after one of them, or a new one, has moved. -/
def setCall (calls : List ClientCall) : Option (Nat × ClientCall) → List ClientCall
  | some (index, call) => if index < calls.length then calls.set index call else calls ++ [call]
  | none => calls

def exec (a : NetworkAction) : Network :=
  let next := n.take a
  let next :=
    { next with
      calls := setCall n.calls (n.movedCall a)
      requests := next.requests ++ (n.sentPost a).toList }
  match n.serverAction a with
  | some action => next.afterServer (serve env n.server action)
  | none => next

end

end Network

/-- Clients, a network and the server, which starts on an empty data directory. -/
def networkMachine (env : Env) : Machine Network NetworkAction where
  init := { server := .initial env, calls := [], requests := [], responses := [] }
  step := Network.exec env

/-- The posts that are sent along a run. -/
def posts (env : Env) (acts : List NetworkAction) : List Post :=
  (networkMachine env).outputs Network.sentPost acts

/-- The actions of the server along a run. -/
def serverTrace (env : Env) (acts : List NetworkAction) : List ServerAction :=
  (networkMachine env).trace (fun n a => (n.serverAction a).toList) acts

end Ambit
