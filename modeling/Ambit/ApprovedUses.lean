import Ambit.Accountability
import Ambit.SessionAuthority
import Ambit.TokenUses

/-! Nothing without approval. What the application lets be done with a token goes back to a request that
an agent submitted with its credential and that an operator with a session approved. -/

namespace Ambit

open Forest

/-! ## What a request asks for -/

/-- What the request asks to be let do. -/
def Arrival.uses (a : Arrival) : List TokenUse :=
  match a.route with
  | .enforce id (some action) => [⟨id, a.bearerToken, action⟩]
  | .access id (some system) (some verb) => [⟨id, a.bearerToken, system.text ++ ":" ++ verb⟩]
  | .customerData id _ => [⟨id, a.bearerToken, customerReadAction⟩]
  | .delegate id _ (some scope) _ => scope.map fun action => ⟨id, a.bearerToken, action⟩
  | _ => []

/-- The response lets the request do what it asks for: at the endpoint it may have failed. -/
def Body.letsThrough : Body → Bool
  | .enforcement .allowed => true
  | .access (.success _) => true
  | .access .unreachable => true
  | .customer (.data _ _) => true
  | .delegated _ _ => true
  | _ => false

def HttpReply.letsThrough (reply : HttpReply) : Bool :=
  match reply.body with
  | some (.routed body) => body.letsThrough
  | _ => false

/-- The call that a request asks for uses what the request does. -/
theorem Exchange.Asks.uses_eq {x : Exchange} {call : Call} (h : x.Asks call) (hne : call.uses ≠ []) :
    x.arrival.uses = call.uses := by
  cases call with
  | enforceToken =>
    obtain ⟨hroute, rfl⟩ := h
    rw [Arrival.uses, hroute]
    rfl
  | accessMockEndpoint input =>
    obtain ⟨hroute, hsecret, -⟩ := h
    rw [Arrival.uses, hroute, ← hsecret]
    rfl
  | accessCustomerData input =>
    obtain ⟨hroute, hsecret⟩ := h
    rw [Arrival.uses, hroute, ← hsecret]
    rfl
  | delegateToken input =>
    obtain ⟨hroute, hsecret⟩ := h
    rw [Arrival.uses, hroute, ← hsecret]
    rfl
  | _ => exact absurd rfl hne

theorem respond_letsThrough {w : World} {call : Call} {outcome : Outcome} {body : Body}
    (hbody : (respond w call outcome).body = some body) (hlets : body.letsThrough = true) :
    outcome.letsThrough = true := by
  have htells := respond_tells body hbody
  cases body with
  | enforcement decision | access decision | customer decision =>
    rw [show outcome = _ from htells]
    cases decision with
    | denied => cases hlets
    | _ => rfl
  | delegated =>
    obtain ⟨token, secret, houtcome⟩ := htells
    rw [houtcome]
    rfl
  | _ => cases hlets

/-- What a handler sends at once lets nothing through. -/
theorem Body.not_letsThrough_of_atOnce {body : Body} (h : body.atOnce = true) :
    body.letsThrough = false := by
  cases body with
  | enforcement | access | customer => cases h
  | _ => first | rfl | cases h

/-! ## Where a permission comes from -/

/-- The root above the token was issued on a request with the action in its scope. -/
structure IssuedOn (env : Env) (w : World) (use : TokenUse) (root : Token) (request : PendingRequest) :
    Prop where
  permitted : w.ledger.Permits env use
  above : root.id = use.tokenId ∨ Ancestor w.ledger.Parent use.tokenId root.id
  stored : w.ledger.tokens root.id = some root
  parentless : root.parentTokenId = none
  behind : RequestBehind w root request
  scope : use.action ∈ request.scope

section
variable {env : Env} {κ : Type} {c : Config κ}

theorem Ledger.Permits.issuedOn {use : TokenUse} (h : c.world.ledger.Permits env use)
    (hc : c.Sound env) : ∃ root request, IssuedOn env c.world use root request := by
  obtain ⟨t, ht, haction, hverify⟩ := id h
  obtain ⟨q, root, request, habove, hroot, hnone, hbehind, hscope⟩ := (grantedDown hc ht haction).request
  obtain rfl := (hc.linked.tokens.key q root hroot).1
  exact ⟨root, request, h, habove, hroot, hnone, hbehind, hscope⟩

/-- The request behind a root was approved by a call of the run. -/
theorem RequestBehind.approvalCalled {acts : List (Action κ)} {root : Token} {request : PendingRequest}
    (h : RequestBehind ((processMachine κ env).run acts).world root request) :
    ApprovalCalled env acts request.id := by
  obtain ⟨-, e, he, -, hdecision, hrequest⟩ := h
  refine (approvalsCalled_run acts).logged e.toAuditEntryInput ?_ hdecision _ hrequest
  refine List.mem_filter.mpr ⟨List.mem_map_of_mem he, ?_⟩
  simp [AuditEntryInput.noteworthy, hdecision]

end

/-! ## At the routes -/

section
variable {env : Env} {acts : List ServerAction}

/-- A response that lets something through answers a call for its request, which is permitted. -/
theorem reply_permitted {reply : Reply} (h : reply ∈ replies env acts) {body : Body}
    (hbody : reply.response.body = some body) (hlets : body.letsThrough = true) :
    reply.exchange.arrival.uses ≠ [] ∧ ∀ use ∈ reply.exchange.arrival.uses,
      ((serverMachine env).run acts).world.ledger.Permits env use := by
  rcases reply_cases h with ⟨arrival, w, response, -, hhandle, rfl⟩ | ⟨s, hs, hclient, w, hresponse⟩
  · have hmakes := @handle_makes env arrival w
    rw [hhandle] at hmakes
    obtain ⟨other, hother, honce, -⟩ := hmakes
    cases hbody.symm.trans hother
    exact Bool.noConfusion ((Body.not_letsThrough_of_atOnce honce).symm.trans hlets)
  · rw [hresponse] at hbody
    obtain ⟨hne, hpermits⟩ := (heeded_run _).ended s hs (respond_letsThrough hbody hlets)
    have hasks := (trace_makes acts _ _ (started_of_settled hs)).asks
    rw [hclient, hasks.uses_eq hne, server_run]
    exact ⟨hne, hpermits⟩

/-- The stored request was submitted by its agent, with a credential. -/
theorem submitted_by {request : PendingRequest}
    (h : ((serverMachine env).run acts).world.requestStore.live.get request.id = some request) :
    ∃ a, ServerAction.arrive a ∈ acts ∧
      (∃ ttlSeconds key, a.route = .submit (some request.scope) ttlSeconds key) ∧
      Identified env acts a request.subject := by
  rw [server_run] at h
  obtain ⟨x, submitted, primaryApprover, now, hcall, hsubject, hscope⟩ :=
    submissionCalled_run _ request.id request h
  obtain ⟨hroute, hagent, -⟩ := (trace_makes acts _ _ hcall).asks
  refine ⟨x.arrival, arrived_of_call hcall, ⟨_, _, hscope ▸ hroute⟩, ?_⟩
  rw [← hsubject]
  exact (trace_admitted acts _ _ hcall _ hagent).identified

/-- The request behind a root was approved by an operator, with a session. -/
theorem approved_by {root : Token} {request : PendingRequest}
    (h : RequestBehind ((serverMachine env).run acts).world root request) :
    ∃ a approver policyId, ServerAction.arrive a ∈ acts ∧ a.session = .valid approver ∧
      a.route = .approve request.id policyId := by
  rw [server_run] at h
  obtain ⟨pre, _, post, hacts, x, input, pending, rfl, hid, -⟩ := h.approvalCalled
  have hcall : Action.call x (.approveRequest input) ∈ processTrace env acts := by
    rw [hacts]
    exact List.mem_append_right _ (List.mem_cons_self ..)
  have hmakes := trace_makes acts _ _ hcall
  obtain ⟨hroute, hsession⟩ := hmakes.asks
  exact ⟨x.arrival, _, _, arrived_of_call hcall, hmakes.session _ hsession, hid ▸ hroute⟩

end

/-! ## In the application -/

section
variable {env : ServerEnv} {acts : List HttpAction}

/-- What a response lets through, the routes have let through. -/
theorem HttpReply.Shows.letsThrough {reply : HttpReply} {routed : Reply} (h : reply.Shows routed)
    (hlets : reply.letsThrough = true) :
    ∃ body, routed.response.body = some body ∧ body.letsThrough = true := by
  unfold HttpReply.letsThrough at hlets
  split at hlets
  · next body hbody => exact ⟨body, h.routed_body hbody, hlets⟩
  · cases hlets

/-- Who asks for something has come to a route. -/
theorem Arrival.Anonymous.uses_eq {a : Arrival} (h : a.Anonymous) : a.uses = [] := by
  rcases h.route with hlist | hlogin
  · rw [Arrival.uses, hlist]
  · unfold Arrival.uses
    cases hroute : a.route with
    | login => rfl
    | _ => cases (hroute ▸ hlogin : Route.isLogin _ = true)

variable (env acts)

/-- The use is permitted by the stored token and its secret, and goes back to a request for the action
that an agent submitted with its credential and that an operator with a session approved. -/
def Sanctioned (use : TokenUse) : Prop :=
  ∃ root request, IssuedOn env.toEnv ((httpMachine env).run acts).process.world use root request ∧
    CredentialShown env acts
      (fun a => ∃ ttlSeconds key, a.route = .submit (some request.scope) ttlSeconds key) request.subject ∧
    Routed env acts fun a => (∃ approver, a.session = .valid approver) ∧
      ∃ policyId, a.route = .approve request.id policyId

variable {env acts}

theorem sanctioned_of_permits {use : TokenUse}
    (h : ((serverMachine env.toEnv).run ((routesSimulation env).trace acts)).world.ledger.Permits
      env.toEnv use) : Sanctioned env acts use := by
  obtain ⟨root, request, hissued⟩ := h.issuedOn (Config.sound_server _)
  obtain ⟨a, ha, hsubmit, hidentified⟩ := submitted_by hissued.behind.1
  obtain ⟨a', approver, policyId, ha', hsession, hroute⟩ := approved_by hissued.behind
  refine ⟨root, request, ?_, hidentified.shown ha hsubmit, ?_⟩
  · rw [http_process]
    exact hissued
  · refine routed_of_arrive ha' (fun hanonymous => ?_) ⟨⟨approver, hsession⟩, policyId, hroute⟩
    cases hanonymous.session.symm.trans hsession

variable (env acts)

/-- **Nothing without approval**: in every run, each response that lets a request do something with a
token answers one that came to its route, and each use that it asks for is sanctioned. -/
theorem nothing_without_approval : ∀ reply ∈ routedReplies env acts, reply.letsThrough = true →
    Routed env acts fun a => a.connection = reply.connection ∧ a.uses ≠ [] ∧
      ∀ use ∈ a.uses, Sanctioned env acts use := by
  intro reply hreply hlets
  obtain ⟨routed, hrouted, hshows⟩ := Simulation.exists_mem_outputs (routedReplies_shown acts) hreply
  obtain ⟨body, hbody, hlets⟩ := hshows.letsThrough hlets
  obtain ⟨hne, hpermits⟩ := reply_permitted hrouted hbody hlets
  refine routed_of_arrive (reply_arrived hrouted) (fun hanonymous => hne hanonymous.uses_eq)
    ⟨hshows.connection.symm, hne, fun use huse => sanctioned_of_permits (hpermits use huse)⟩

end

/-! ## A run -/

/-- The one payload of a session is abbreviated. -/
def sampleShortEnv : ServerEnv :=
  { sampleServerEnv with
    hmacSha256 := fun secret text => secret ++ text
    toBase64url := fun _ => "payload"
    fromBase64url := fun _ => []
    stringifyPayload := fun _ => []
    parseJson := fun _ => .ok (SessionPayload.json ⟨"alice", 60000, .finite 3660000⟩) }

def sampleVisit (bearerToken : String) (route : { route : Route // route.isLogin = false }) :
    List HttpAction :=
  [.arrive { target := .api route, authorization := some ("Bearer " ++ bearerToken) },
   .resume 0 .responded]

/-- An operator logs in and registers an agent, approves its request for the scope, and the token is
used. -/
def sampleGranted (scope : List String) (use : { route : Route // route.isLogin = false }) :
    List HttpAction :=
  sampleSession ++
    sampleVisit "payload.signingpayload" ⟨.registerAgent (some "agent"), rfl⟩ ++
    sampleVisit "id-3.secret-4" ⟨.submit (some scope) (some (.finite 60)) none, rfl⟩ ++
    sampleVisit "payload.signingpayload" ⟨.approve "id-7" none, rfl⟩ ++ sampleVisit "secret-9" use

def sampleUsed : List HttpAction := sampleGranted ["a"] ⟨.enforce "id-11" (some "a"), rfl⟩

theorem nothing_without_approval_sample : ∃ reply ∈ routedReplies sampleShortEnv sampleUsed,
    Routed sampleShortEnv sampleUsed fun a => a.connection = reply.connection ∧ a.uses ≠ [] ∧
      ∀ use ∈ a.uses, Sanctioned sampleShortEnv sampleUsed use := by
  have hany : (routedReplies sampleShortEnv sampleUsed).any HttpReply.letsThrough = true := by
    decide +kernel
  obtain ⟨reply, hreply, hlets⟩ := List.any_eq_true.mp hany
  exact ⟨reply, hreply, nothing_without_approval sampleShortEnv sampleUsed reply hreply hlets⟩

end Ambit
