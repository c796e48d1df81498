import Ambit.RetriedSubmission

/-! The calls of the handlers: each is the one that its route is for, with the fields of the body, and
with who the middleware has found the sender to be. -/

namespace Ambit

variable {env : Env}

/-- The call is one that the route of the request makes, with what the request says. -/
def Exchange.Asks (x : Exchange) : Call → Prop
  | .requestToken request primaryApprover _ =>
    x.arrival.route = .submit (some request.scope) (some request.ttlSeconds) request.idempotencyKey ∧
      x.agentIdentity = some request.subject ∧ primaryApprover = x.arrival.settings.adminUsername
  | .approveRequest input =>
    x.arrival.route = .approve input.requestId input.policyId ∧ x.session = some input.approver
  | .denyRequest requestId approver reasonCode _ =>
    x.arrival.route = .deny requestId (some reasonCode) ∧ x.session = some approver
  | .checkRequestTimeout requestId _ _ _ =>
    (∃ policyId, x.arrival.route = .approve requestId policyId) ∨
      ∃ reasonCode, x.arrival.route = .deny requestId (some reasonCode)
  | .claimTokenSecret requestId requestingSubject _ =>
    x.arrival.route = .claimSecret requestId ∧ x.agentIdentity = some requestingSubject
  | .delegateToken input =>
    x.arrival.route = .delegate input.parentTokenId (some input.childSubject)
      (some input.requestedScope) (some input.ttlSeconds) ∧
        input.providedParentSecret = x.arrival.bearerToken
  | .enforceToken tokenId providedSecret action _ =>
    x.arrival.route = .enforce tokenId (some action) ∧ providedSecret = x.arrival.bearerToken
  | .accessMockEndpoint input =>
    x.arrival.route = .access input.tokenId (some input.system) (some input.verb) ∧
      input.providedSecret = x.arrival.bearerToken ∧
        input.maxAttempts = x.arrival.settings.accessMaxAttempts.getD 2
  | .accessCustomerData input =>
    x.arrival.route = .customerData input.tokenId input.customerId ∧
      input.providedSecret = x.arrival.bearerToken
  | .revokeToken tokenId reasonCode _ actor =>
    x.arrival.route = .revoke tokenId (some reasonCode) ∧ actor.isSome ∧ x.session = actor
  | .getTokenLineage tokenId => x.arrival.route = .lineage tokenId
  | .createPolicy input authoredBy _ =>
    x.arrival.route =
        .createPolicy (some input.name) (some input.allowedScope) (some input.maxTtlSeconds) ∧
      x.session = some authoredBy
  | .modifyPolicy policyId changes authoredBy _ =>
    x.arrival.route = .modifyPolicy policyId changes ∧ x.session = some authoredBy
  | .createRedactionRule input authoredBy _ =>
    x.arrival.route = .createRedactionRule (some input.name) (some input.sensitiveFields) ∧
      x.session = some authoredBy
  | .registerAgentIdentity subject createdBy _ =>
    x.arrival.route = .registerAgent (some subject) ∧ x.session = some createdBy
  | .authenticateAgent credential => credential = x.arrival.bearerToken
  | .recordLogin _ _ _ => ∃ username password totpCode matched,
      x.arrival.route = .login username password totpCode matched
  | .simulateOutage down | .recordOutageToggle down _ => x.arrival.route = .simulateOutage down
  | .setDown system down => x.arrival.route = .mockEndpointDown (some system) down

/-- A handler makes the call for its request, and for the operator of its session, if any. -/
structure Exchange.Makes (x : Exchange) (call : Call) : Prop where
  session : ∀ username, x.session = some username → x.arrival.session = .valid username
  asks : x.Asks call

/-! ## The first call -/

/-- A body that a handler sends without a call: an error, or what is stored. -/
def Body.atOnce : Body → Bool
  | .error _ => true
  | .agents _ | .request _ | .requests _ | .tokens _ | .policies _ | .redactionRules _ => true
  | .circuitBreaker _ | .auditLog _ | .verification _ => true
  | _ => false

/-- What a body says of the log is what the log is. -/
def Body.Reads (env : Env) (log : AuditLog) : Body → Prop
  | .auditLog entries => entries = log.entries
  | .verification result => result = log.verify env.toPlatform
  | _ => True

section
variable {a : Arrival} {w : World}

/-- What a handler comes to at once for the request: a response without a call, or a call that the
request asks for, before any agent has been authenticated. -/
def Handled.Makes (env : Env) (w : World) (a : Arrival) : Handled → Prop
  | .inl response =>
    ∃ body, response.body = some body ∧ body.atOnce = true ∧ body.Reads env w.auditLog
  | .inr (x, call) => x.arrival = a ∧ x.agentIdentity = none ∧ x.Makes call

theorem Arrival.requireSession_makes {f : Exchange → String → Handled}
    (hf : ∀ username, a.session = .valid username →
      (f { arrival := a, session := some username } username).Makes env w a) :
    (a.requireSession f).Makes env w a := by
  unfold Arrival.requireSession
  split
  · exact ⟨_, rfl, rfl, trivial⟩
  · split <;> exact ⟨_, rfl, rfl, trivial⟩
  · next username hsession =>
    split
    · exact ⟨_, rfl, rfl, trivial⟩
    · exact hf username hsession

theorem handle_makes (a : Arrival) (w : World) : (a.handle env w).Makes env w a := by
  have hopen : ∀ call : Call, Exchange.Asks { arrival := a } call →
      Handled.Makes env w a (.inr ({ arrival := a }, call)) :=
    fun call hasks => ⟨rfl, rfl, nofun, hasks⟩
  have hsession : ∀ {username : String} (call : Call), a.session = .valid username →
      Exchange.Asks { arrival := a, session := some username } call →
      Handled.Makes env w a (.inr ({ arrival := a, session := some username }, call)) := by
    intro username call hvalid hasks
    refine ⟨rfl, rfl, fun _ h => ?_, hasks⟩
    cases h
    exact hvalid
  unfold Arrival.handle
  split
  · exact ⟨_, rfl, rfl, trivial⟩
  split
  · exact ⟨_, rfl, rfl, trivial⟩
  cases hroute : a.route with
  | login username password totpCode matched =>
    dsimp only
    split
    · exact ⟨_, rfl, rfl, trivial⟩
    · split
      · split <;> exact hopen _ ⟨_, _, _, _, hroute⟩
      · exact ⟨_, rfl, rfl, trivial⟩
  | submit | claimSecret =>
    dsimp only
    unfold Arrival.requireAgentCredential
    split
    · exact ⟨_, rfl, rfl, trivial⟩
    · exact hopen _ rfl
  | showRequest id =>
    dsimp only
    split <;> exact ⟨_, rfl, rfl, trivial⟩
  | registerAgent subject =>
    refine a.requireSession_makes fun username hvalid => ?_
    split
    · exact hsession _ hvalid ⟨hroute, rfl⟩
    · exact ⟨_, rfl, rfl, trivial⟩
  | createPolicy | createRedactionRule =>
    refine a.requireSession_makes fun username hvalid => ?_
    split
    · exact hsession _ hvalid ⟨hroute, rfl⟩
    · exact ⟨_, rfl, rfl, trivial⟩
  | deny id reasonCode =>
    refine a.requireSession_makes fun username hvalid => ?_
    split
    · exact hsession _ hvalid (.inr ⟨_, hroute⟩)
    · exact ⟨_, rfl, rfl, trivial⟩
  | revoke id reasonCode =>
    refine a.requireSession_makes fun username hvalid => ?_
    split
    · next reason hreason =>
      obtain ⟨rfl, -⟩ := Option.filter_eq_some_iff.mp hreason
      exact hsession _ hvalid ⟨hroute, rfl, rfl⟩
    · exact ⟨_, rfl, rfl, trivial⟩
  | listAgents => exact a.requireSession_makes fun username hvalid => ⟨_, rfl, rfl, trivial⟩
  | approve id policyId =>
    exact a.requireSession_makes fun username hvalid => hsession _ hvalid (.inl ⟨_, hroute⟩)
  | modifyPolicy id changes =>
    exact a.requireSession_makes fun username hvalid => hsession _ hvalid ⟨hroute, rfl⟩
  | enforce | delegate =>
    dsimp only
    split
    · exact hopen _ ⟨hroute, rfl⟩
    · exact ⟨_, rfl, rfl, trivial⟩
  | access =>
    dsimp only
    split
    · exact hopen _ ⟨hroute, rfl, rfl⟩
    · exact ⟨_, rfl, rfl, trivial⟩
  | mockEndpointDown =>
    dsimp only
    split
    · exact hopen _ hroute
    · exact ⟨_, rfl, rfl, trivial⟩
  | simulateOutage =>
    dsimp only
    split
    · exact ⟨_, rfl, rfl, trivial⟩
    · exact ⟨_, rfl, rfl, trivial⟩
    · exact hopen _ hroute
  | lineage => exact hopen _ hroute
  | customerData => exact hopen _ ⟨hroute, rfl⟩
  | listRequests | showCircuitBreaker | listTokens | listPolicies | listRedactionRules =>
    exact ⟨_, rfl, rfl, trivial⟩
  | auditLog | verifyAuditLog => exact ⟨_, rfl, rfl, rfl⟩

end

/-! ## The next call -/

/-- The call after another is made for the same request and operator, and for the agent that has been
authenticated. -/
structure Exchange.Follows (x x' : Exchange) (call' : Call) (outcome : Outcome) : Prop where
  arrival : x'.arrival = x.arrival
  makes : x'.Makes call'
  agent : x'.agentIdentity = x.agentIdentity ∨ ∃ identity,
    outcome = .identity (some identity) ∧ x'.agentIdentity = some identity.subject

theorem Exchange.Makes.next {x x' : Exchange} {call call' : Call} {outcome : Outcome} {w : World}
    (h : x.Makes call) (hnext : x.next w call outcome = some (x', call')) :
    x.Follows x' call' outcome := by
  unfold Exchange.next at hnext
  split at hnext
  · next identity =>
    dsimp only at hnext
    split at hnext
    · next hroute =>
      cases hnext
      exact ⟨rfl, ⟨h.session, hroute, rfl, rfl⟩, .inr ⟨identity, rfl, rfl⟩⟩
    · next hroute =>
      cases hnext
      exact ⟨rfl, ⟨h.session, hroute, rfl⟩, .inr ⟨identity, rfl, rfl⟩⟩
    · cases hnext
  · split at hnext
    · next hroute hsession =>
      cases hnext
      exact ⟨rfl, ⟨h.session, hroute, hsession⟩, .inl rfl⟩
    · next hroute hsession =>
      cases hnext
      exact ⟨rfl, ⟨h.session, hroute, hsession⟩, .inl rfl⟩
    · cases hnext
  · cases hnext
    exact ⟨rfl, ⟨h.session, h.asks⟩, .inl rfl⟩
  · cases hnext

/-! ## Along every run -/

/-- What holds of the first call of each handler, and then of the call that follows another, holds of
every call of a run. -/
theorem trace_calls {P : List ServerAction → Exchange → Call → Prop}
    (hmono : ∀ acts a x call, P acts x call → P (acts ++ [a]) x call)
    (hhandle : ∀ acts arrival x call,
      Arrival.handle arrival env ((serverMachine env).run acts).world = .inr (x, call) →
        P (acts ++ [.arrive arrival]) x call)
    (hnext : ∀ acts s w x call, s ∈ settledCalls env (processTrace env acts) →
      P acts s.client s.call → s.client.next w s.call s.outcome = some (x, call) → P acts x call)
    (acts : List ServerAction) :
    ∀ x call, Action.call x call ∈ processTrace env acts → P acts x call := by
  induction acts using List.reverseRecOn with
  | nil => exact fun x call h => by cases h
  | append_singleton acts a ih =>
    have hold : ∀ x call, Action.call x call ∈ processTrace env acts → P (acts ++ [a]) x call :=
      fun x call h => hmono acts a x call (ih x call h)
    have hpiece : ∀ piece, pieces env ((serverMachine env).run acts) a =
          piece :: followUp (((serverMachine env).run acts).exec env piece) →
        (∀ x call, piece = .call x call → P (acts ++ [a]) x call) →
        ∀ x call, Action.call x call ∈ pieces env ((serverMachine env).run acts) a →
          P (acts ++ [a]) x call := by
      intro piece hpieces hfirst x call hmem
      rw [hpieces] at hmem
      rcases List.mem_cons.mp hmem with rfl | hmem
      · exact hfirst x call rfl
      · -- the call follows one that has ended, which was made for the same request
        obtain ⟨next, hfollows, hcall⟩ := Option.map_eq_some_iff.mp (Option.mem_toList.mp hmem)
        cases hcall
        obtain ⟨s, hs, hfollows⟩ := Option.bind_eq_some_iff.mp hfollows
        have hsettled : s ∈ settledCalls env (processTrace env acts ++ [piece]) := by
          rw [settledCalls_snoc, ← server_run]
          exact List.mem_append_right _ (Option.mem_toList.mpr hs)
        refine hnext (acts ++ [a]) s _ _ _ ?_ ?_ hfollows
        · rw [settledCalls_trace, hpieces]
          exact List.mem_append_right _ (List.mem_append_left _ (Option.mem_toList.mpr hs))
        · rcases List.mem_append.mp (started_of_settled hsettled) with h | h
          · exact hold _ _ h
          · exact hfirst _ _ (List.mem_singleton.mp h).symm
    intro x call hmem
    rw [processTrace, Machine.trace_snoc] at hmem
    rcases List.mem_append.mp hmem with hmem | hmem
    · exact hold x call hmem
    · cases a with
      | arrive arrival =>
        cases hhandled : arrival.handle env ((serverMachine env).run acts).world with
        | inl response =>
          simp only [pieces, hhandled] at hmem
          cases hmem
        | inr next =>
          obtain ⟨x₀, call₀⟩ := next
          refine hpiece (.call x₀ call₀) (by simp only [pieces, hhandled]) ?_ x call hmem
          rintro _ _ ⟨⟩
          exact hhandle acts arrival x₀ call₀ hhandled
      | resume i downstream => exact hpiece (.resume i downstream) rfl (by rintro _ _ ⟨⟩) x call hmem
      | clock t =>
        cases List.mem_singleton.mp hmem
      | restart => cases List.mem_singleton.mp hmem

/-- **Every call is made for a request that asks for it**, with what the request says. -/
theorem trace_makes (acts : List ServerAction) : ∀ x call,
    Action.call x call ∈ processTrace env acts → x.Makes call := by
  refine trace_calls (P := fun _ x call => x.Makes call) ?_ ?_ ?_ acts
  · exact fun _ _ _ _ h => h
  · intro acts arrival x call hhandle
    have hmakes := @handle_makes env arrival ((serverMachine env).run acts).world
    rw [hhandle] at hmakes
    exact hmakes.2.2
  · exact fun _ _ _ _ _ _ h hnext => (h.next hnext).makes

end Ambit
