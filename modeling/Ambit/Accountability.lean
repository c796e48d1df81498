import Ambit.AgentCredentials
import Ambit.Attribution
import Ambit.HandlerCalls
import Ambit.HttpRoutes

/-! Who stands behind the audit log in the runs of the application: the operator of an entry had a
session that was checked, and the agent a credential of an identity that such an operator registered. -/

namespace Ambit

variable {env : Env}

/-! ## Runs of the routes -/

/-- A request of the run has a session of the operator. -/
def Attended (acts : List ServerAction) (username : String) : Prop :=
  ∃ a, ServerAction.arrive a ∈ acts ∧ a.session = .valid username

/-- The actor of an entry that names one. -/
def Named (P : String → Prop) : Option String → Prop
  | some username => P username
  | none => False

theorem Named.mono {P Q : String → Prop} (h : ∀ username, P username → Q username) :
    ∀ actor, Named P actor → Named Q actor
  | some username, hP => h username hP

section
variable {acts : List ServerAction} {a : Arrival} {subject : String}

/-- An authentication for the request has ended with an identity of the agent. -/
def Admitted (env : Env) (acts : List ServerAction) (a : Arrival) (subject : String) : Prop :=
  ∃ s ∈ settledCalls env (processTrace env acts), ∃ identity,
    s.outcome = .identity (some identity) ∧ identity.subject = subject ∧ s.client.arrival = a

theorem Admitted.snoc (h : Admitted env acts a subject) (action : ServerAction) :
    Admitted env (acts ++ [action]) a subject := by
  obtain ⟨s, hs, hidentity⟩ := h
  refine ⟨s, ?_, hidentity⟩
  rw [settledCalls_trace]
  exact List.mem_append_left _ hs

/-- **An agent that a call is made for has been authenticated**, for the same request. -/
theorem trace_admitted (acts : List ServerAction) : ∀ x call,
    Action.call x call ∈ processTrace env acts → ∀ subject, x.agentIdentity = some subject →
      Admitted env acts x.arrival subject := by
  refine fun x call h => (trace_calls (P := fun acts x call => x.Makes call ∧
    ∀ subject, x.agentIdentity = some subject → Admitted env acts x.arrival subject) ?_ ?_ ?_ acts
      x call h).2
  · exact fun acts a x call ⟨hmakes, h⟩ => ⟨hmakes, fun subject hsubject => (h subject hsubject).snoc a⟩
  · intro acts arrival x call hhandle
    have hmakes := @handle_makes env arrival ((serverMachine env).run acts).world
    rw [hhandle] at hmakes
    obtain ⟨-, hnone, hmakes⟩ := hmakes
    refine ⟨hmakes, fun subject hsubject => ?_⟩
    rw [hnone] at hsubject
    cases hsubject
  · intro acts s w x call hs ⟨hmakes, h⟩ hnext
    have hfollows := hmakes.next hnext
    refine ⟨hfollows.makes, fun subject hsubject => ?_⟩
    rw [hfollows.arrival]
    rcases hfollows.agent with hagent | ⟨identity, houtcome, hagent⟩
    · exact h subject (hagent.symm.trans hsubject)
    · cases hagent.symm.trans hsubject
      exact ⟨s, hs, identity, houtcome, rfl, rfl⟩

/-- The request has a credential of an identity of the agent, one that is stored and that an operator of
the run has registered. -/
def Identified (env : Env) (acts : List ServerAction) (a : Arrival) (subject : String) : Prop :=
  ∃ identity secret, splitCredential a.bearerToken = some (identity.id, secret) ∧
    verifyPassword env.toPlatform secret identity.secretHash = true ∧ identity.subject = subject ∧
    ((serverMachine env).run acts).world.agentIdentityStore.live.get identity.id = some identity ∧
    Attended acts identity.createdBy

/-- The operator of a call had a session. -/
theorem attended_of_trace {x : Exchange} {call : Call} (h : Action.call x call ∈ processTrace env acts)
    {username : String} (hsession : x.session = some username) : Attended acts username :=
  ⟨x.arrival, arrived_of_call h, (trace_makes acts x call h).session username hsession⟩

theorem Admitted.identified (h : Admitted env acts a subject) : Identified env acts a subject := by
  obtain ⟨s, hs, identity, hidentity, rfl, rfl⟩ := h
  have hsofar := identitiesSoFar env (processTrace env acts)
  have hmakes := trace_makes acts _ _ (started_of_settled hs)
  obtain ⟨secret, ⟨hstored, credential, hcall, hsplit⟩, hverify⟩ :=
    hsofar.authenticated s hs identity hidentity
  rw [hcall] at hmakes
  obtain rfl : credential = s.client.arrival.bearerToken := hmakes.asks
  obtain ⟨client, hregister⟩ := hsofar.called _ identity hstored
  refine ⟨identity, secret, hsplit, hverify, rfl, ?_, ?_⟩
  · rw [server_run]
    exact hstored
  · exact attended_of_trace hregister (trace_makes acts _ _ hregister).asks.2

/-- **Every call is made for somebody**: for an operator whose session was checked, or an agent whose
credential was. -/
theorem trace_madeFor {x : Exchange} {call : Call} (h : Action.call x call ∈ processTrace env acts) :
    call.MadeFor (Named (Attended acts)) fun subject =>
      ∃ a, ServerAction.arrive a ∈ acts ∧ Identified env acts a subject := by
  have hmakes := trace_makes acts x call h
  have hagent : ∀ subject, x.agentIdentity = some subject →
      ∃ a, ServerAction.arrive a ∈ acts ∧ Identified env acts a subject := fun subject hsubject =>
    ⟨x.arrival, arrived_of_call h, (trace_admitted acts x call h subject hsubject).identified⟩
  cases call with
  | requestToken => exact hagent _ hmakes.asks.2.1
  | claimTokenSecret => exact hagent _ hmakes.asks.2
  | approveRequest | denyRequest | createPolicy | modifyPolicy | createRedactionRule |
    registerAgentIdentity => exact attended_of_trace h hmakes.asks.2
  | revokeToken tokenId reasonCode now actor =>
    obtain ⟨-, hsome, hsession⟩ := hmakes.asks
    obtain ⟨username, rfl⟩ := Option.isSome_iff_exists.mp hsome
    exact attended_of_trace h hsession
  | _ => trivial

/-- Each entry of the log names who had the session, or the credential, of a request. -/
theorem server_attributed (acts : List ServerAction) :
    ((serverMachine env).run acts).world.auditLog.Lists
      (AuditEntryInput.AttributedTo (Named (Attended acts)) fun subject =>
        ∃ a, ServerAction.arrive a ∈ acts ∧ Identified env acts a subject) := by
  have hrun := (attribution env (Named (Attended acts)) fun subject =>
    ∃ a, ServerAction.arrive a ∈ acts ∧ Identified env acts a subject).calls.run .empty
    fun client call hcall => trace_madeFor hcall
  rw [← server_run] at hrun
  exact hrun.world

end

/-! ## Runs of the application -/

section
variable {env : ServerEnv}

/-- The request is let through to its route, as the arrival. -/
def HttpServer.Routes (s : HttpServer env) (request : HttpRequest) (arrival : Arrival) : Prop :=
  ∃ route : { route : Route // route.isLogin = false }, request.target = .api route ∧
    request.arrival env s.vars s.now route.val = .ok arrival

/-- A request of the run came to its route like this. -/
def Routed (env : ServerEnv) (acts : List HttpAction) (P : Arrival → Prop) : Prop :=
  (httpMachine env).Happened
    (fun s a => ∃ request arrival, a = .arrive request ∧ s.Routes request arrival ∧ P arrival) acts

/-- A request of the run came to its route with a session of the operator. -/
def SignedIn (env : ServerEnv) (acts : List HttpAction) (username : String) : Prop :=
  Routed env acts fun arrival => arrival.session = .valid username

/-- A request of the run like this came to its route with a credential of an identity of the agent, one
that is stored and that an operator who was signed in has registered. -/
def CredentialShown (env : ServerEnv) (acts : List HttpAction) (P : Arrival → Prop)
    (subject : String) : Prop :=
  ∃ identity secret, Routed env acts (fun arrival => P arrival ∧
      splitCredential arrival.bearerToken = some (identity.id, secret)) ∧
    verifyPassword env.toPlatform secret identity.secretHash = true ∧ identity.subject = subject ∧
    ((httpMachine env).run acts).process.world.agentIdentityStore.live.get identity.id = some identity ∧
    SignedIn env acts identity.createdBy

/-- The request has neither a session nor a credential, and asks for nothing but a login or a list. -/
structure Arrival.Anonymous (a : Arrival) : Prop where
  session : a.session = .unconfigured
  authorization : a.authorization = none
  route : a.route = .listTokens ∨ a.route.isLogin = true

theorem Arrival.Anonymous.bearerToken_eq {a : Arrival} (h : a.Anonymous) : a.bearerToken = "" := by
  unfold Arrival.bearerToken
  rw [h.authorization]
  decide

/-- What the routes see of a request is what was let through, or anonymous. -/
theorem HttpServer.mem_pieces {s : HttpServer env} {act : HttpAction} {a : Arrival}
    (h : ServerAction.arrive a ∈ s.pieces act) :
    (∃ request, act = .arrive request ∧ s.Routes request a) ∨ a.Anonymous := by
  have hlogin : ∀ {request : HttpRequest}
      {r : Progress (LoginFrame env.toLoginPlatform) LoginReply × VerifierCache},
      ServerAction.arrive a ∈ loginPieces request r → a.Anonymous := by
    rintro request ⟨reply | frame, cache⟩ h
    · cases List.mem_singleton.mp h
      cases reply with
      | failed => exact ⟨rfl, rfl, .inl rfl⟩
      | _ => exact ⟨rfl, rfl, .inr rfl⟩
    · cases h
  cases act with
  | arrive request =>
    unfold HttpServer.pieces at h
    dsimp only at h
    split at h
    · cases List.mem_singleton.mp h
      exact .inr ⟨rfl, rfl, .inl rfl⟩
    split at h
    · cases List.mem_singleton.mp h
      exact .inr ⟨rfl, rfl, .inl rfl⟩
    unfold HttpServer.dispatchPieces at h
    cases htarget : request.target with
    | login body =>
      rw [htarget] at h
      dsimp only at h
      split at h
      · cases List.mem_singleton.mp h
        exact .inr ⟨rfl, rfl, .inl rfl⟩
      split at h
      · exact .inr (hlogin h)
      · cases List.mem_singleton.mp h
        exact .inr ⟨rfl, rfl, .inr rfl⟩
    | api route =>
      rw [htarget] at h
      dsimp only at h
      split at h
      · next arrival harrival =>
        cases List.mem_singleton.mp h
        exact .inl ⟨request, rfl, route, htarget, harrival⟩
      · cases List.mem_singleton.mp h
        exact .inr ⟨rfl, rfl, .inl rfl⟩
    | unmatched =>
      rw [htarget] at h
      cases h
  | resumeLogin i =>
    unfold HttpServer.pieces at h
    dsimp only at h
    split at h
    · cases h
    · exact .inr (hlogin h)
  | resume | clock | restart => cases List.mem_singleton.mp h
  | setVariables => cases h

variable {acts : List HttpAction}

/-- What arrives at the routes and is not anonymous was let through. -/
theorem routed_of_arrive {a : Arrival} {P : Arrival → Prop}
    (ha : ServerAction.arrive a ∈ (routesSimulation env).trace acts) (hknown : ¬ a.Anonymous)
    (h : P a) : Routed env acts P := by
  obtain ⟨pre, act, post, hacts, hmem⟩ := (routesSimulation env).mem_trace ha
  rcases HttpServer.mem_pieces hmem with ⟨request, hact, hroutes⟩ | hanonymous
  · exact ⟨pre, act, post, hacts, request, a, hact, hroutes, h⟩
  · exact absurd hanonymous hknown

theorem Attended.signedIn {username : String}
    (h : Attended ((routesSimulation env).trace acts) username) : SignedIn env acts username := by
  obtain ⟨a, ha, hsession⟩ := h
  exact routed_of_arrive ha (fun h => by cases h.session.symm.trans hsession) hsession

theorem Identified.shown {a : Arrival} {P : Arrival → Prop} {subject : String}
    (h : Identified env.toEnv ((routesSimulation env).trace acts) a subject)
    (ha : ServerAction.arrive a ∈ (routesSimulation env).trace acts) (hP : P a) :
    CredentialShown env acts P subject := by
  obtain ⟨identity, secret, hsplit, hverify, hsubject, hstored, hcreated⟩ := h
  refine ⟨identity, secret, ?_, hverify, hsubject, ?_, hcreated.signedIn⟩
  · refine routed_of_arrive ha (fun hanonymous => ?_) ⟨hP, hsplit⟩
    rw [hanonymous.bearerToken_eq] at hsplit
    cases hsplit
  · rw [http_process]
    exact hstored

/-- **Somebody answers for every entry of the audit log**: in memory and in its files, in every state
of every run, who decides a request, revokes, registers or changes a policy or a rule is an operator
with a session that was checked (or, of the rule that the server makes sure of when it starts, `system`),
and who submits a request or claims a secret is an agent whose credential, registered by such an
operator, was. No other entry names an actor, but for the toggle of the circuit breaker. -/
theorem every_entry_answered_for (env : ServerEnv) (acts : List HttpAction) :
    ((httpMachine env).run acts).process.world.auditLog.Lists (AuditEntryInput.AttributedTo
      (Named (SignedIn env acts)) (CredentialShown env acts fun _ => True)) := by
  have hlists := @server_attributed env.toEnv ((routesSimulation env).trace acts)
  rw [← http_process] at hlists
  exact hlists.mono fun entry h => h.mono (Named.mono fun _ h => h.signedIn) fun _ ⟨a, ha, h⟩ =>
    h.shown ha trivial

end

end Ambit
