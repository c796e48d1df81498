import Ambit.FiledRecords

/-! What an answer promises. A call that has been answered has its records and its audit entry in the
files, on a disk whose operations fail as a whole, in any pattern, and there they stay. -/

namespace Ambit

open Effect

variable {env : Env} {κ α : Type}

/-! ## What is recorded -/

/-- The entry of a decision of the gateway. -/
def EnforcementDecision.fact (tokenId action : String) : EnforcementDecision → FileFact
  | .allowed => .entry fun e => e.decision = .allowed ∧ e.tokenId = some tokenId ∧ e.action = action
  | .denied reasonCode _ => .entry fun e => e.decision = .denied ∧ e.tokenId = some tokenId ∧
    e.action = action ∧ e.reasonCode = some reasonCode.text

/-- What a call that has been answered so has put into the files. A submission with an idempotency key
may be answered with a request that an earlier one could not write. -/
def Call.records : Call → Outcome → List FileFact
  | .requestToken request _ _, .request r =>
    if truthy request.idempotencyKey = none then
      [.request (· = r.image),
        .entry fun e => e.decision = .requestSubmitted ∧ e.requestId = some r.id ∧
          e.subject = request.subject]
    else []
  | .approveRequest input, .token t =>
    [.token (· = t.image),
      .request fun r => r.id = input.requestId ∧ r.status = .approved ∧ r.tokenId = some t.id,
      .entry fun e => e.decision = .requestApproved ∧ e.requestId = some input.requestId ∧
        e.tokenId = some t.id ∧ e.policyId = input.policyId ∧ e.actor = some input.approver]
  | .denyRequest requestId approver reasonCode _, .done =>
    [.request fun r => r.id = requestId ∧ r.status = .denied,
      .entry fun e => e.decision = .requestDenied ∧ e.requestId = some requestId ∧
        e.actor = some approver ∧ e.reasonCode = some reasonCode.text]
  | .claimTokenSecret requestId requestingSubject _, .claimed tokenId _ =>
    [.request fun r => r.id = requestId ∧ r.status = .approved ∧ r.tokenId = some tokenId,
      .entry fun e => e.decision = .tokenSecretClaimed ∧ e.requestId = some requestId ∧
        e.tokenId = some tokenId ∧ e.subject = requestingSubject]
  | .delegateToken input, .delegation (.approved t _) =>
    [.token (· = t.image),
      .entry fun e => e.decision = .allowed ∧ e.action = "delegate" ∧ e.tokenId = some t.id ∧
        e.subject = input.childSubject]
  | .delegateToken input, .delegation (.denied reasonCode) =>
    [.entry fun e => e.decision = .denied ∧ e.action = "delegate" ∧
      e.tokenId = some input.parentTokenId ∧ e.reasonCode = some reasonCode.text]
  | .enforceToken tokenId _ action _, .enforcement decision => [decision.fact tokenId action]
  | .accessMockEndpoint input, .access result => [match result with
    | .success _ => .entry fun e => e.decision = .allowed ∧ e.tokenId = some input.tokenId ∧
      e.action = input.action ∧ e.outcome = some .success
    | .unreachable => .entry fun e => e.decision = .allowed ∧ e.tokenId = some input.tokenId ∧
      e.action = input.action ∧ e.outcome = some .unreachable
    | .denied reasonCode => .entry fun e => e.decision = .denied ∧ e.tokenId = some input.tokenId ∧
      e.action = input.action ∧ e.reasonCode = some reasonCode.text]
  | .accessCustomerData input, .customer result => [match result with
    | .data _ redactedFields => .entry fun e => e.decision = .dataAccessed ∧
      e.tokenId = some input.tokenId ∧ e.redactedFields = some redactedFields
    | .denied reasonCode _ => .entry fun e => e.decision = .denied ∧ e.tokenId = some input.tokenId ∧
      e.action = customerReadAction ∧ e.reasonCode = some reasonCode.text]
  | .revokeToken tokenId reasonCode _ actor, .token t =>
    [.token fun line => line = t.image ∧ line.id = tokenId ∧ line.status = .revoked,
      .entry fun e => e.decision = .revoked ∧ e.tokenId = some tokenId ∧
        e.reasonCode = some reasonCode.text ∧ e.actor = actor]
  | .createPolicy _ authoredBy _, .policy policy =>
    [.policy (· = policy.image),
      .entry fun e => e.decision = .policyCreated ∧ e.policyId = some policy.id ∧
        e.subject = authoredBy]
  | .modifyPolicy policyId _ authoredBy _, .policy policy =>
    [.policy (· = policy.image),
      .entry fun e => e.decision = .policyModified ∧ e.policyId = some policyId ∧
        e.subject = authoredBy]
  | .createRedactionRule _ authoredBy _, .rule rule =>
    [.rule (· = rule),
      .entry fun e => e.decision = .redactionRuleCreated ∧ e.reasonCode = some rule.id ∧
        e.subject = authoredBy]
  | .registerAgentIdentity subject createdBy _, .registered identity _ =>
    [.identity (· = identity),
      .entry fun e => e.decision = .agentIdentityRegistered ∧ e.subject = subject ∧
        e.actor = some createdBy]
  | .recordLogin username matched _, .done =>
    [.entry fun e => e.action = "login" ∧ e.subject = username ∧
      e.decision = if matched then .allowed else .denied]
  | .recordOutageToggle down _, .done =>
    [.entry fun e => e.action = "circuit_breaker_simulate_outage" ∧
      e.decision = if down then .circuitOpened else .circuitClosed]
  | _, _ => []

/-- Everything that the call has to have put into the files is there. -/
def Call.Recorded (env : Env) (call : Call) (outcome : Outcome) (w : World) : Prop :=
  ∀ fact ∈ call.records outcome, fact.Holds env w

/-! ## What the operations give -/

/-- The entry that was filed is one of this kind. -/
theorem FileFact.Holds.entry {w : World} {entry : AuditEntryInput} {P : AuditEntryInput → Prop}
    (h : (FileFact.entry (· = entry)).Holds env w) (hP : P entry) : (FileFact.entry P).Holds env w := by
  obtain ⟨full, hfull, rfl⟩ := h
  exact ⟨full, hfull, hP⟩

/-- A suspended check of the gateway is for this token, which it has read. -/
structure EnforceFrame.Checks (frame : EnforceFrame) (tokenId action : String) : Prop where
  named : frame.tokenId = tokenId
  asked : frame.action = action
  read : frame.token.id = tokenId

/-- What a suspended call remembers of its arguments, and of what it has read. -/
def Call.StopsAt : Call → Frame → Prop
  | .approveRequest input, .approve frame => frame.input = input ∧ frame.pending.id = input.requestId
  | .delegateToken input, .delegate (.verifying input' _) => input' = input
  | .delegateToken input, .delegate (.issuing input' _) => input' = input
  | .enforceToken tokenId _ action _, .enforce frame => frame.Checks tokenId action
  | .accessMockEndpoint input, .access (.enforcing input' frame) =>
    input' = input ∧ frame.Checks input.tokenId input.action
  | .accessMockEndpoint input, .access (.calling loop _) => loop.input = input
  | .accessMockEndpoint input, .access (.sleeping loop _) => loop.input = input
  | .accessCustomerData input, .customer frame =>
    frame.input = input ∧ frame.enforce.Checks input.tokenId customerReadAction
  | .registerAgentIdentity subject createdBy _, .register frame =>
    frame.subject = subject ∧ frame.createdBy = createdBy
  | .authenticateAgent _, .authenticate _ => True
  | _, _ => False

section
variable {C : Lasting env}

theorem gives_requestToken (request : SubmittedRequest) (primaryApprover : Option String) (now : Int) :
    Gives C (fun r => Call.Recorded env (.requestToken request primaryApprover now) (.request r))
      (requestToken env request primaryApprover now) := by
  have hkeyed : ∀ r w, truthy request.idempotencyKey ≠ none →
      Call.Recorded env (.requestToken request primaryApprover now) (.request r) w := by
    intro r w hkey
    rw [Call.Recorded, Call.records, if_neg hkey]
    exact List.forall_mem_nil _
  refine .get_bind fun w _ _ => ?_
  cases hexisting : existingRequest w request with
  | some existing =>
    refine .pure fun w' _ _ => hkeyed _ _ fun hnone => ?_
    rw [existingRequest, hnone] at hexisting
    cases hexisting
  | none =>
    refine .after (respects_draw _) fun id => .bind (gives_requestStore_save _) fun _ =>
      .bind (gives_auditRecord (by exact trivial) now) fun _ => ?_
    refine .after (respects_of_same fun _ => ⟨rfl, rfl, rfl, rfl, rfl, rfl⟩) fun anomaly =>
      .after (Keeps.ite (respects_auditRecord (by exact trivial) now) Keeps.pure) fun _ =>
        .pure fun w' _ h => ?_
    by_cases hkey : truthy request.idempotencyKey = none
    · rw [Call.Recorded, Call.records, if_pos hkey]
      exact List.forall_mem_cons.mpr ⟨h.1.2.2, List.forall_mem_singleton.mpr
        (h.2.2.entry ⟨rfl, rfl, rfl⟩)⟩
    · exact hkeyed _ _ hkey

/-- The issued token is filed, whether or not a failure would be logged. -/
theorem gives_catchApprovalFailure {fact : α → FileFact} {input : ApprovalInput}
    {pending : PendingRequest} {issue : Op α} (h : Gives C (fun a => (fact a).Holds env) issue) :
    Gives C (fun a => (fact a).Holds env) (catchApprovalFailure env input pending issue) := by
  refine .attempt_bind_fact h (fun a => .pure fun w _ h => h.2.2) fun err => .after ?_ fun _ => .throw
  cases err.approvalFailure with
  | some message => exact respects_auditRecord (by exact trivial) _
  | none => exact Keeps.pure

theorem gives_issue (frame : IssueFrame) :
    Gives C (fun issued => (FileFact.token (· = issued.token.image)).Holds env) (frame.resume env) :=
  .after (respects_draw _) fun _ => .bind (gives_tokenStore_save _) fun _ => .pure fun _ _ h => h.2.2

theorem gives_approve {frame : ApproveFrame} (hid : frame.pending.id = frame.input.requestId) :
    Gives C (fun t => Call.Recorded env (.approveRequest frame.input) (.token t)) (frame.resume env) := by
  refine .bind (L := fun issued => .token (· = issued.token.image))
    (gives_catchApprovalFailure (gives_issue _)) fun issued =>
    .bind (gives_requestStore_save _) fun _ => .bind (gives_auditRecord (by exact trivial) _) fun _ =>
      .pure fun w _ h => ?_
  obtain ⟨r, hr, rfl⟩ := h.1.2.2
  exact List.forall_mem_cons.mpr ⟨h.1.1.2.2, List.forall_mem_cons.mpr ⟨⟨_, hr, hid, rfl, rfl⟩,
    List.forall_mem_singleton.mpr (h.2.2.entry ⟨rfl, rfl, rfl, rfl, rfl⟩)⟩⟩

theorem gives_denyRequest (requestId approver : String) (reasonCode : DenialReason) (now : Int) :
    Gives C (fun _ => Call.Recorded env (.denyRequest requestId approver reasonCode now) .done)
      (denyRequest env requestId approver reasonCode now) := by
  refine .bind_value (gives_getPending requestId _) fun pending hid =>
    .after (respects_assertEligibleDecider pending trivial _ _) fun _ =>
      .bind (gives_requestStore_save _) fun _ => ?_
  refine .mono (gives_auditRecord (by exact trivial) _) fun _ w h hentry => ?_
  obtain ⟨r, hr, rfl⟩ := h.2.2
  exact List.forall_mem_cons.mpr ⟨⟨_, hr, hid, rfl⟩,
    List.forall_mem_singleton.mpr (hentry.entry ⟨rfl, rfl, rfl, rfl⟩)⟩

theorem gives_claimTokenSecret (requestId requestingSubject : String) (now : Int) :
    Gives C (fun c => Call.Recorded env (.claimTokenSecret requestId requestingSubject now)
      (.claimed c.1 c.2)) (claimTokenSecret env requestId requestingSubject now) := by
  refine .bind_value (gives_requestStore_get requestId) fun found hid => ?_
  cases found with
  | none => exact .throw
  | some pending =>
    refine .ite (fun _ => .after (respects_auditRecord (by exact rfl) _) fun _ => .throw) fun _ => ?_
    split
    · next tokenId secret hstatus htoken _ =>
      refine .bind (gives_requestStore_save _) fun _ => .bind (gives_auditRecord (by exact trivial) _)
        fun _ => .pure fun w _ h => ?_
      obtain ⟨r, hr, rfl⟩ := h.1.2.2
      have htokenId : pending.tokenId = some tokenId := (truthy_eq_some.mp htoken).1
      exact List.forall_mem_cons.mpr ⟨⟨_, hr, hid pending rfl, hstatus, htokenId⟩,
        List.forall_mem_singleton.mpr (h.2.2.entry ⟨rfl, rfl, rfl, rfl⟩)⟩
    · exact .throw
    · exact .throw

/-! ### Tokens -/

theorem gives_denyEnforcement (tokenId subject action : String) (now : Int)
    (reasonCode : EnforcementDenialReason) (message : String) :
    Gives C (fun decision => (decision.fact tokenId action).Holds env)
      (denyEnforcement env tokenId subject action now reasonCode message) :=
  .bind (gives_auditRecord (by exact rfl) _) fun _ => .pure fun _ _ h =>
    h.2.2.entry ⟨rfl, rfl, rfl, rfl⟩

theorem gives_enforceToken (tokenId providedSecret action : String) (now : Int) :
    Gives C (fun progress w => progress.Meets (fun f => f.Checks tokenId action)
        (fun decision => (decision.fact tokenId action).Holds env) w)
      (enforceToken env tokenId providedSecret action now) := by
  refine .attempt_bind (gives_tokenStore_get tokenId) (fun found hfound => ?_) fun err => ?_
  · cases found with
    | none =>
      exact .bind (gives_denyEnforcement _ _ _ _ _ _) fun decision => .pure fun w _ h => h.2.2
    | some token => exact .pure fun w _ _ => ⟨rfl, rfl, hfound token rfl⟩
  · cases err with
    | circuitOpen =>
      exact .bind (gives_denyEnforcement _ _ _ _ _ _) fun decision => .pure fun w _ h => h.2.2
    | _ => exact .throw

theorem gives_enforce {frame : EnforceFrame} {tokenId action : String}
    (h : frame.Checks tokenId action) :
    Gives C (fun decision => (decision.fact tokenId action).Holds env) (frame.resume env) := by
  obtain ⟨tokenId', providedSecret, action', now, token⟩ := frame
  obtain ⟨rfl, rfl, htoken⟩ := h
  refine .ite (fun _ => gives_denyEnforcement _ _ _ _ _ _) fun _ => ?_
  split
  · exact .bind (gives_auditRecord (by exact rfl) _) fun _ => .pure fun w _ h =>
      h.2.2.entry ⟨rfl, congrArg some htoken, rfl⟩
  · next reasonCode message _ =>
    exact (gives_denyEnforcement _ _ _ _ _ _).mono fun _ w _ h => htoken ▸ h

/-! ### Access -/

/-- What an access to a mock endpoint stops at, or has recorded. -/
def AccessInput.Goes (env : Env) (input : AccessInput) (progress : Progress AccessFrame AccessResult)
    (w : World) : Prop :=
  progress.Meets (fun frame => (Call.accessMockEndpoint input).StopsAt (.access frame))
    (fun result => Call.Recorded env (.accessMockEndpoint input) (.access result)) w

theorem gives_loopNext (loop : AccessLoop) (lastError : Err) :
    Gives C (loop.input.Goes env) (loop.next env lastError) := by
  refine .ite (fun _ => .get_bind fun _ _ _ => .pure fun _ _ _ => rfl) fun _ => ?_
  split
  · exact .bind (gives_auditRecord (by exact rfl) _) fun _ => .pure fun w _ h =>
      List.forall_mem_singleton.mpr (h.2.2.entry ⟨rfl, rfl, rfl, rfl⟩)
  · exact .throw

theorem gives_loopFailed (loop : AccessLoop) (err : Err) :
    Gives C (loop.input.Goes env) (loop.failed env err) :=
  .ite (fun _ => .pure fun _ _ _ => rfl) fun _ =>
    gives_loopNext { loop with attempt := loop.attempt + 1 } err

/-- The gateway's decision has been filed. -/
theorem gives_accessAfter (input : AccessInput) (decision : EnforcementDecision) :
    Gives (C.and ((decision.fact input.tokenId input.action).lasting env)) (input.Goes env)
      (accessAfter env input decision) := by
  cases decision with
  | denied reasonCode message => exact .pure fun w _ h => List.forall_mem_singleton.mpr h.2.2
  | allowed =>
    exact .after (respects_tokenStore_get _) fun token => gives_loopNext ⟨input, _, 1⟩ .undefinedThrown

theorem gives_accessMockEndpoint (input : AccessInput) :
    Gives C (input.Goes env) (accessMockEndpoint env input) :=
  .bind_progress (gives_enforceToken _ _ _ _)
    (fun _ hchecks => .pure fun _ _ _ => ⟨rfl, hchecks⟩) fun decision =>
      gives_accessAfter input decision

theorem gives_access (downstream : Downstream) {frame : AccessFrame} {input : AccessInput}
    (h : (Call.accessMockEndpoint input).StopsAt (.access frame)) :
    Gives C (input.Goes env) (frame.resume env downstream) := by
  cases frame with
  | enforcing input' frame =>
    obtain ⟨rfl, hchecks⟩ := h
    exact .bind (gives_enforce hchecks) fun decision => gives_accessAfter input' decision
  | calling loop accepted =>
    obtain rfl : loop.input = input := h
    refine .ite (fun _ => ?_) fun _ => gives_loopFailed _ _
    refine .attempt_bind_fact (gives_auditRecord (by exact rfl) _) (fun _ => .pure fun w _ h => ?_)
      fun err => gives_loopFailed _ _
    exact List.forall_mem_singleton.mpr (h.2.2.entry ⟨rfl, rfl, rfl, rfl⟩)
  | sleeping loop lastError =>
    obtain rfl : loop.input = input := h
    exact gives_loopNext { loop with attempt := loop.attempt + 1 } lastError

theorem gives_customerDataAfter (input : CustomerAccessInput) (decision : EnforcementDecision) :
    Gives (C.and ((decision.fact input.tokenId customerReadAction).lasting env))
      (fun result => Call.Recorded env (.accessCustomerData input) (.customer result))
      (customerDataAfter env input decision) := by
  have hdeny : ∀ reasonCode message, Gives (C.and ((decision.fact input.tokenId
      customerReadAction).lasting env))
      (fun result => Call.Recorded env (.accessCustomerData input) (.customer result))
      (denyCustomerAccess env input reasonCode message) := fun reasonCode message =>
    .bind (gives_auditRecord (by exact rfl) _) fun _ => .pure fun w _ h =>
      List.forall_mem_singleton.mpr (h.2.2.entry ⟨rfl, rfl, rfl, rfl⟩)
  cases decision with
  | denied reasonCode message => exact .pure fun w _ h => List.forall_mem_singleton.mpr h.2.2
  | allowed =>
    unfold customerDataAfter
    cases env.customerRegistry input.customerId with
    | none => exact hdeny _ _
    | some customer =>
      refine .get_bind fun w _ _ => ?_
      cases w.redactionRuleStore.live.get input.redactionRuleId with
      | none => exact hdeny _ _
      | some rule =>
        exact .after (respects_tokenStore_get _) fun token => .bind (gives_auditRecord (by exact rfl) _)
          fun _ => .pure fun w _ h => List.forall_mem_singleton.mpr (h.2.2.entry ⟨rfl, rfl, rfl⟩)

theorem gives_accessCustomerData (input : CustomerAccessInput) :
    Gives C (fun progress w => progress.Meets
        (fun frame => (Call.accessCustomerData input).StopsAt (.customer frame))
        (fun result => Call.Recorded env (.accessCustomerData input) (.customer result)) w)
      (accessCustomerData env input) :=
  .bind_progress (gives_enforceToken _ _ _ _)
    (fun _ hchecks => .pure fun _ _ _ => ⟨rfl, hchecks⟩) fun decision =>
      .map (gives_customerDataAfter input decision)

/-! ### Delegation and revocation -/

/-- What a delegation stops at, or has recorded. -/
def DelegationInput.Goes (env : Env) (input : DelegationInput)
    (progress : Progress DelegateFrame DelegationDecision) (w : World) : Prop :=
  progress.Meets (fun frame => (Call.delegateToken input).StopsAt (.delegate frame))
    (fun decision => Call.Recorded env (.delegateToken input) (.delegation decision)) w

theorem gives_denyDelegation (input : DelegationInput) (reasonCode : DelegationDenialReason) :
    Gives C (input.Goes env) (do return .returned (← denyDelegation env input reasonCode)) :=
  .map <| .bind (gives_auditRecord (by exact rfl) _) fun _ => .pure fun w _ h =>
    List.forall_mem_singleton.mpr (h.2.2.entry ⟨rfl, rfl, rfl, rfl⟩)

theorem gives_delegateToken (input : DelegationInput) :
    Gives C (input.Goes env) (delegateToken env input) := by
  refine .attempt_bind (gives_tokenStore_get _) (fun found hfound => ?_) fun err => ?_
  · cases found with
    | none => exact gives_denyDelegation input _
    | some parent => exact .pure fun _ _ _ => rfl
  · cases err with
    | circuitOpen => exact gives_denyDelegation input _
    | _ => exact .throw

/-- A rejection by the breaker has been filed as a denial. -/
theorem gives_catchCircuitOpen_error (input : DelegationInput) (err : Err)
    {k : α → Op (Progress DelegateFrame DelegationDecision)} :
    Gives C (input.Goes env) (catchCircuitOpen env input (.error err) k) := by
  cases err with
  | circuitOpen => exact gives_denyDelegation input _
  | _ => exact .throw

theorem gives_delegate {frame : DelegateFrame} {input : DelegationInput}
    (h : (Call.delegateToken input).StopsAt (.delegate frame)) :
    Gives C (input.Goes env) (frame.resume env) := by
  cases frame with
  | verifying input' parent =>
    obtain rfl : input' = input := h
    simp only [DelegateFrame.resume]
    cases delegationDenial env input' parent with
    | some reasonCode => exact gives_denyDelegation input' _
    | none =>
      refine .after (Keeps.attempt (respects_issueToken _ _)) fun issue => ?_
      cases issue with
      | ok issue => exact .pure fun _ _ _ => rfl
      | error err => exact gives_catchCircuitOpen_error input' err
  | issuing input' issue =>
    obtain rfl : input' = input := h
    refine .attempt_bind_fact (gives_issue issue) (fun issued => ?_) fun err =>
      gives_catchCircuitOpen_error input' err
    exact .bind (gives_auditRecord (by exact rfl) _) fun _ => .pure fun w _ h =>
      List.forall_mem_cons.mpr ⟨h.1.2.2, List.forall_mem_singleton.mpr
        (h.2.2.entry ⟨rfl, rfl, rfl, rfl⟩)⟩

theorem gives_revokeToken (tokenId : String) (reasonCode : RevocationReason) (now : Int)
    (actor : Option String) :
    Gives C (fun t => Call.Recorded env (.revokeToken tokenId reasonCode now actor) (.token t))
      (revokeToken env tokenId reasonCode now actor) := by
  refine .bind_value (gives_tokenStore_get tokenId) fun found hid => ?_
  cases found with
  | none => exact .throw
  | some token =>
    refine .bind (gives_tokenStore_save _) fun _ => .bind (gives_auditRecord (by exact trivial) _)
      fun _ => .after (Keeps.bind Keeps.get fun _ => respects_cascadeRevokeAux _ trivial _ _)
        fun _ => .pure fun w _ h => ?_
    obtain ⟨line, hline, rfl⟩ := h.1.2.2
    exact List.forall_mem_cons.mpr ⟨⟨_, hline, rfl, hid token rfl, rfl⟩,
      List.forall_mem_singleton.mpr (h.2.2.entry ⟨rfl, rfl, rfl, rfl⟩)⟩

/-! ### Policies, rules, agents and operators -/

theorem gives_createPolicy (input : PolicyInput) (authoredBy : String) (now : Int) :
    Gives C (fun policy => Call.Recorded env (.createPolicy input authoredBy now) (.policy policy))
      (createPolicy env input authoredBy now) :=
  .after (respects_validate _) fun _ => .after (respects_draw _) fun _ =>
    .bind (gives_policyStore_save _) fun _ => .bind (gives_auditRecord (by exact trivial) _) fun _ =>
      .pure fun w _ h => List.forall_mem_cons.mpr ⟨h.1.2.2, List.forall_mem_singleton.mpr
        (h.2.2.entry ⟨rfl, rfl, rfl⟩)⟩

theorem gives_modifyPolicy (policyId : String) (changes : PolicyChanges) (authoredBy : String)
    (now : Int) : Gives C
      (fun policy => Call.Recorded env (.modifyPolicy policyId changes authoredBy now) (.policy policy))
      (modifyPolicy env policyId changes authoredBy now) := by
  refine .after (respects_policyStore_get _) fun found => ?_
  cases found with
  | none => exact .throw
  | some existing =>
    exact .after (respects_validate _) fun _ => .bind (gives_policyStore_save _) fun _ =>
      .bind (gives_auditRecord (by exact trivial) _) fun _ => .pure fun w _ h =>
        List.forall_mem_cons.mpr ⟨h.1.2.2, List.forall_mem_singleton.mpr
          (h.2.2.entry ⟨rfl, rfl, rfl⟩)⟩

theorem gives_createRedactionRule (input : RedactionRuleInput) (authoredBy : String) (now : Int) :
    Gives C (fun rule => Call.Recorded env (.createRedactionRule input authoredBy now) (.rule rule))
      (createRedactionRule env input authoredBy now) :=
  .after (respects_validateRule _) fun _ => .after (respects_draw _) fun _ =>
    .bind (gives_ruleStore_save _) fun _ => .bind (gives_auditRecord (by exact .inl trivial) _) fun _ =>
      .pure fun w _ h => List.forall_mem_cons.mpr ⟨h.1.2.2, List.forall_mem_singleton.mpr
        (h.2.2.entry ⟨rfl, rfl, rfl⟩)⟩

theorem gives_register {frame : RegisterFrame} (now : Int) :
    Gives C (fun r => Call.Recorded env (.registerAgentIdentity frame.subject frame.createdBy now)
      (.registered r.1 r.2)) (frame.resume env) :=
  .bind (gives_identityStore_save _) fun _ => .bind (gives_auditRecord (by exact trivial) _) fun _ =>
    .pure fun w _ h => List.forall_mem_cons.mpr ⟨h.1.2.2, List.forall_mem_singleton.mpr
      (h.2.2.entry ⟨rfl, rfl, rfl⟩)⟩

/-- A registration, suspended, is for the subject and the operator that it was started with. -/
theorem gives_registerAgentIdentity (subject createdBy : String) (now : Int) :
    Gives C (fun frame _ => frame.subject = subject ∧ frame.createdBy = createdBy)
      (registerAgentIdentity env subject createdBy now) :=
  .after (respects_validateAgentIdentity _) fun _ => .after (respects_draw _) fun _ =>
    .after (respects_draw _) fun _ => .after (respects_draw _) fun _ => .pure fun _ _ _ => ⟨rfl, rfl⟩

theorem gives_approveRequest (input : ApprovalInput) :
    Gives C (fun frame _ => frame.input = input ∧ frame.pending.id = input.requestId)
      (approveRequest env input) :=
  .bind_value (gives_getPending _ _) fun pending hid =>
    .after (respects_assertEligibleDecider pending trivial _ _) fun _ =>
      .after (respects_catchApprovalFailure trivial pending (respects_issueToken _ _)) fun _ =>
        .pure fun _ _ _ => ⟨rfl, hid⟩

end

/-! ## Calls -/

section
variable {w : World}

/-- A call that never awaits, and gives what it has to. -/
theorem wp_synchronously_gives {op : Op α} {outcome : α → Outcome} {call : Call} {F : Frame → Prop}
    (h : Gives (nothing env) (fun a => call.Recorded env (outcome a)) op) (hw : w.WellFiled env) :
    wp (synchronously op outcome) (Upheld (World.WellFiled env) F (call.Recorded env)) w :=
  wp_synchronously_upheld (wp_mono (h w ⟨hw, hw.laidOut, trivial⟩) fun _ _ hr => ⟨hr.1.1, hr.2⟩)

theorem wp_map_gives {φ : Type} {op : Op (Progress φ α)} {onFrame : φ → Frame} {onValue : α → Outcome}
    {call : Call} {F : Frame → Prop}
    (h : Gives (nothing env) (fun progress w => progress.Meets (fun f => F (onFrame f))
      (fun a => call.Recorded env (onValue a)) w) op) (hw : w.WellFiled env) :
    wp (do return (← op).map onFrame onValue) (Upheld (World.WellFiled env) F (call.Recorded env)) w :=
  wp_map_upheld (wp_mono (h w ⟨hw, hw.laidOut, trivial⟩) fun _ _ hr => ⟨hr.1.1, hr.2⟩)

/-- A call that never awaits, of which nothing has to be recorded. -/
theorem wp_synchronously_unrecorded {op : Op α} {outcome : α → Outcome} {call : Call} {F : Frame → Prop}
    (h : Respects (filing env).toRecordPredicate op) (hrecords : ∀ a, call.records (outcome a) = [])
    (hw : w.WellFiled env) :
    wp (synchronously op outcome) (Upheld (World.WellFiled env) F (call.Recorded env)) w := by
  refine wp_synchronously_upheld (wp_mono (h w hw) fun r w' hr => ⟨hr.state, ?_⟩)
  cases r with
  | error => trivial
  | ok a =>
    show ∀ fact ∈ call.records (outcome a), fact.Holds env w'
    rw [hrecords]
    exact List.forall_mem_nil _

theorem wp_startCall_recorded (call : Call) (hw : w.WellFiled env) :
    wp (startCall env call) (Upheld (World.WellFiled env) call.StopsAt (call.Recorded env)) w := by
  cases call with
  | requestToken request primaryApprover now =>
    exact wp_synchronously_gives (gives_requestToken _ _ _) hw
  | approveRequest input =>
    refine wp_bind (wp_mono (gives_approveRequest (C := nothing env) input w ⟨hw, hw.laidOut, trivial⟩)
      fun r w' ⟨hw', hr⟩ => ?_)
    cases r with
    | error => exact upheld_error hw'.1
    | ok frame => exact wp_pure (upheld_awaiting hw'.1 hr)
  | denyRequest requestId approver reasonCode now =>
    exact wp_synchronously_gives (gives_denyRequest _ _ _ _) hw
  | checkRequestTimeout requestId decisionWindowMs backupApprover now =>
    exact wp_synchronously_unrecorded (respects_checkRequestTimeout _ _ _ _) (fun _ => rfl) hw
  | claimTokenSecret requestId requestingSubject now =>
    exact wp_synchronously_gives (gives_claimTokenSecret _ _ _) hw
  | delegateToken input => exact wp_map_gives (gives_delegateToken input) hw
  | enforceToken tokenId providedSecret action now =>
    refine wp_map_gives (.mono (gives_enforceToken _ _ _ _) fun progress w _ h => ?_) hw
    cases progress with
    | awaiting frame => exact h
    | returned decision => exact List.forall_mem_singleton.mpr h
  | accessMockEndpoint input => exact wp_map_gives (gives_accessMockEndpoint input) hw
  | accessCustomerData input => exact wp_map_gives (gives_accessCustomerData input) hw
  | revokeToken tokenId reasonCode now actor =>
    exact wp_synchronously_gives (gives_revokeToken _ _ _ _) hw
  | getTokenLineage tokenId =>
    exact wp_bind (wp_get (wp_synchronously_unrecorded (respects_getTokenLineage _ _) (fun _ => rfl) hw))
  | createPolicy input authoredBy now => exact wp_synchronously_gives (gives_createPolicy _ _ _) hw
  | modifyPolicy policyId changes authoredBy now =>
    exact wp_synchronously_gives (gives_modifyPolicy _ _ _ _) hw
  | createRedactionRule input authoredBy now =>
    exact wp_synchronously_gives (gives_createRedactionRule _ _ _) hw
  | registerAgentIdentity subject createdBy now =>
    refine wp_bind (wp_mono (gives_registerAgentIdentity (C := nothing env) subject createdBy now w
      ⟨hw, hw.laidOut, trivial⟩) fun r w' ⟨hw', hr⟩ => ?_)
    cases r with
    | error => exact upheld_error hw'.1
    | ok frame => exact wp_pure (upheld_awaiting hw'.1 hr)
  | authenticateAgent credential =>
    refine wp_map_upheld (wp_mono (respects_authenticateAgent (I := (filing env).toRecordPredicate) credential w hw) fun r w' hr =>
      ⟨hr.state, ?_⟩)
    cases r with
    | error => trivial
    | ok progress =>
      cases progress with
      | awaiting frame => trivial
      | returned identity => exact List.forall_mem_nil _
  | recordLogin username matched now =>
    refine wp_synchronously_gives (.ite (fun hmatched => ?_) fun hmatched => ?_) hw
    · exact (gives_auditRecord (by exact rfl) _).mono fun _ w _ h => List.forall_mem_singleton.mpr
        (h.entry ⟨rfl, rfl, by rw [if_pos hmatched]⟩)
    · exact (gives_auditRecord (by exact rfl) _).mono fun _ w _ h => List.forall_mem_singleton.mpr
        (h.entry ⟨rfl, rfl, by rw [if_neg hmatched]⟩)
  | simulateOutage down | setDown system down =>
    exact wp_synchronously_unrecorded (respects_of_same fun _ => ⟨rfl, rfl, rfl, rfl, rfl, rfl⟩)
      (fun _ => rfl) hw
  | recordOutageToggle down now =>
    refine wp_synchronously_gives (.mono (gives_auditRecord ?_ _) fun _ w _ h =>
      List.forall_mem_singleton.mpr (h.entry ⟨rfl, rfl⟩)) hw
    cases down with
    | false => exact .inr rfl
    | true => exact .inr rfl

theorem wp_resumeFrame_recorded (call : Call) (downstream : Downstream) {frame : Frame}
    (hw : w.WellFiled env) (hframe : call.StopsAt frame) :
    wp (resumeFrame env downstream frame)
      (Upheld (World.WellFiled env) call.StopsAt (call.Recorded env)) w := by
  unfold Call.StopsAt at hframe
  split at hframe
  · obtain ⟨rfl, hid⟩ := hframe
    exact wp_synchronously_gives (gives_approve hid) hw
  · exact wp_map_gives (gives_delegate hframe) hw
  · exact wp_map_gives (gives_delegate hframe) hw
  · exact wp_synchronously_gives (.mono (gives_enforce hframe) fun _ _ _ h =>
      List.forall_mem_singleton.mpr h) hw
  · exact wp_map_gives (gives_access downstream hframe) hw
  · exact wp_map_gives (gives_access downstream hframe) hw
  · exact wp_map_gives (gives_access downstream hframe) hw
  · obtain ⟨rfl, hchecks⟩ := hframe
    exact wp_synchronously_gives (.bind (gives_enforce hchecks) fun decision =>
      gives_customerDataAfter _ decision) hw
  · obtain ⟨rfl, rfl⟩ := hframe
    exact wp_synchronously_gives (gives_register _) hw
  · exact wp_pure (upheld_returned hw (List.forall_mem_nil _))
  · exact hframe.elim

end

/-! ## Runs -/

/-- The calls of a run record what they have to. -/
def acknowledgement (env : Env) : CallInvariant env where
  allowed _ := True
  world := World.WellFiled env
  frame := Call.StopsAt
  outcome call := call.Recorded env
  boots _ h := (filing env).boot h
  restarts := (filing env).restarted
  clock _ _ h := (filing env).unrecorded _ _ h ⟨rfl, rfl, rfl, rfl, rfl, rfl⟩
  starts _ call h _ := wp_startCall_recorded call h
  resumes _ call downstream _ h hframe := wp_resumeFrame_recorded call downstream h hframe

/-- The calls that end in a run on a failing disk. -/
def settledOnDisk (env : Env) (acts : List (FaultyAction κ)) : List (Settled κ) :=
  (faultyMachine κ env).outputs (fun c a => match a with
    | .process a => (c.exec env a).2
    | .disk _ => none) acts

theorem acknowledgement_run (acts : List (FaultyAction κ)) :
    ((faultyMachine κ env).run acts).Upholds (acknowledgement env) := by
  induction acts using List.reverseRecOn with
  | nil =>
    have hempty : World.initial.WellFiled env := by
      refine ⟨laidOut_initial, ?_, ?_⟩
      · intro k t h
        cases h
      · intro k r h
        cases h
    exact ⟨(filing env).boot hempty, fun x hx => by cases hx⟩
  | append_singleton acts a ih =>
    rw [Machine.run_snoc]
    cases a with
    | process a => exact ((acknowledgement env).exec ih a fun _ _ _ => trivial).1
    | disk faults =>
      exact ⟨(filing env).unrecorded _ _ ih.world ⟨rfl, rfl, rfl, rfl, rfl, rfl⟩, ih.frames⟩

/-- What a call records when it ends, and what lasts, holds of the calls of a run for good. -/
theorem settledOnDisk_lasting (env : Env) {Q : Settled κ → World → Prop}
    (hlasts : ∀ s w w', w.Extends env w' → Q s w → Q s w')
    (hends : ∀ s w, (∃ err, s.outcome = .failed err) ∨ s.call.Recorded env s.outcome w → Q s w)
    (acts : List (FaultyAction κ)) :
    ∀ s ∈ settledOnDisk env acts, Q s ((faultyMachine κ env).run acts).world := by
  induction acts using List.reverseRecOn with
  | nil => exact fun s hs => by cases hs
  | append_singleton acts a ih =>
    intro s hs
    rw [settledOnDisk, Machine.outputs_snoc] at hs
    rcases List.mem_append.mp hs with hs | hs
    · exact ((lasting env (Q s) (hlasts s)).faulty_run acts ⟨laidOut_run acts, ih s hs⟩ [a]).2
    · rw [Machine.run_snoc]
      cases a with
      | disk faults => cases hs
      | process a =>
        exact hends s _ (((acknowledgement env).exec (acknowledgement_run acts) a fun _ _ _ => trivial).2 s
          (Option.mem_toList.mp hs))

end Ambit
