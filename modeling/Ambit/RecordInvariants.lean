import Ambit.AuditFailures
import Ambit.CallInvariants

/-! Invariants of the audit log and of the files of the stores. What each `record` of an entry that its
parties stand behind keeps, and each save, every call that is made for these parties keeps, whatever
the breaker and the file operations do. -/

namespace Ambit

open Effect

/-! ## Parties -/

section
variable (operators : Option String → Prop) (agents : String → Prop)

/-- The entry makes one of the operators, or one of the agents, responsible for what they alone do. -/
def AuditEntryInput.AttributedTo (entry : AuditEntryInput) : Prop :=
  match entry.decision with
  | .requestApproved | .requestDenied | .requestDecisionRejected | .revoked
  | .agentIdentityRegistered => operators entry.actor
  | .policyCreated | .policyModified => operators (some entry.subject)
  -- the rule that the server makes sure of when it starts is the only one of its own
  | .redactionRuleCreated => operators (some entry.subject) ∨ entry.subject = "system"
  | .requestSubmitted | .anomalyDetected | .tokenSecretClaimed => agents entry.subject
  | .circuitOpened | .circuitClosed => entry.actor = none ∨ entry.actor = some "admin-toggle"
  | .requestEscalated | .allowed | .denied | .dataAccessed => entry.actor = none

variable {operators agents} in
theorem AuditEntryInput.AttributedTo.mono {operators' : Option String → Prop}
    {agents' : String → Prop} {entry : AuditEntryInput} (h : entry.AttributedTo operators agents)
    (hoperators : ∀ u, operators u → operators' u) (hagents : ∀ a, agents a → agents' a) :
    entry.AttributedTo operators' agents' := by
  unfold AuditEntryInput.AttributedTo at h ⊢
  cases hdecision : entry.decision with
  | requestApproved | requestDenied | requestDecisionRejected | revoked | agentIdentityRegistered =>
    rw [hdecision] at h
    exact hoperators _ h
  | policyCreated | policyModified =>
    rw [hdecision] at h
    exact hoperators _ h
  | redactionRuleCreated =>
    rw [hdecision] at h
    exact h.imp_left (hoperators _)
  | requestSubmitted | anomalyDetected | tokenSecretClaimed =>
    rw [hdecision] at h
    exact hagents _ h
  | circuitOpened | circuitClosed | requestEscalated | allowed | denied | dataAccessed =>
    rw [hdecision] at h
    exact h

/-- The call is made for one of the operators or agents, if it does what they alone do. -/
def Call.MadeFor : Call → Prop
  | .requestToken request _ _ => agents request.subject
  | .claimTokenSecret _ requestingSubject _ => agents requestingSubject
  | .approveRequest input => operators (some input.approver)
  | .denyRequest _ approver _ _ => operators (some approver)
  | .revokeToken _ _ _ actor => operators actor
  | .createPolicy _ authoredBy _ | .modifyPolicy _ _ authoredBy _
  | .createRedactionRule _ authoredBy _ => operators (some authoredBy)
  | .registerAgentIdentity _ createdBy _ => operators (some createdBy)
  | _ => True

/-- What a suspended call keeps of the operator that it is made for. -/
def Frame.MadeFor : Frame → Prop
  | .approve frame => operators (some frame.input.approver)
  | .register frame => operators (some frame.createdBy)
  | _ => True

end

/-! ## Invariants -/

/-- The log and the stores stay the same. -/
structure World.SameFiles (w w' : World) : Prop where
  auditLog : w'.auditLog = w.auditLog
  tokenStore : w'.tokenStore = w.tokenStore
  requestStore : w'.requestStore = w.requestStore
  policyStore : w'.policyStore = w.policyStore
  agentIdentityStore : w'.agentIdentityStore = w.agentIdentityStore
  redactionRuleStore : w'.redactionRuleStore = w.redactionRuleStore

/-- A statement about the log and the stores that a save keeps, and the record of an entry that one of
the parties stands behind. -/
structure RecordPredicate (env : Env) (operators : Option String → Prop) (agents : String → Prop) where
  holds : World → Prop
  unrecorded : ∀ w w', holds w → World.SameFiles w w' → holds w'
  logged : ∀ (w : World) (call : RecordCall), call.entry.AttributedTo operators agents → holds w →
    holds { w with auditLog := (w.auditLog.call env.toPlatform env.audit call).2 }
  tokenSaved : ∀ (w : World) appended token, holds w →
    holds { w with tokenStore := w.tokenStore.save Token.id Token.image appended token }
  requestSaved : ∀ (w : World) appended r, holds w →
    holds { w with requestStore := w.requestStore.save PendingRequest.id PendingRequest.image appended r }
  policySaved : ∀ (w : World) appended policy, holds w →
    holds { w with policyStore := w.policyStore.save Policy.id Policy.image appended policy }
  identitySaved : ∀ (w : World) appended identity, holds w → holds { w with
    agentIdentityStore := w.agentIdentityStore.save AgentIdentity.id (fun i => i) appended identity }
  ruleSaved : ∀ (w : World) appended rule, holds w → holds { w with
    redactionRuleStore := w.redactionRuleStore.save RedactionRule.id (fun r => r) appended rule }

/-- Such a statement that a restart keeps as well. -/
structure RecordInvariant (env : Env) (operators : Option String → Prop) (agents : String → Prop)
    extends RecordPredicate env operators agents where
  restarted : ∀ w, holds w → holds (w.restart env)

/-! ## Operations -/

variable {env : Env} {operators : Option String → Prop} {agents : String → Prop} {α β : Type}
  {I : RecordPredicate env operators agents}

/-- The operation keeps the invariant, however it ends. -/
abbrev Respects (I : RecordPredicate env operators agents) (x : Op α) : Prop :=
  Keeps I.holds (fun _ => True) x

theorem respects_of_same {x : Op α} (h : ∀ w, World.SameFiles w (after x w)) : Respects I x :=
  fun w hw => wp_iff.mpr ⟨I.unrecorded _ _ hw (h w), fun _ _ => trivial⟩

theorem respects_draw (value : ℕ → α) : Respects I (draw value) :=
  respects_of_same fun _ => ⟨rfl, rfl, rfl, rfl, rfl, rfl⟩

theorem respects_attempt {x : Op α} (h : Respects I x) :
    Respects I (attempt x) := Keeps.attempt h

theorem respects_now : Respects I now := Keeps.bind Keeps.get fun _ => Keeps.pure

/-- Writing an entry is a call of `record`, which returns if the operation does. -/
theorem wp_auditRecord_call (entry : AuditEntryInput) (now : Int) (w : World) :
    wp (auditRecord env entry now) (fun r w' => ∃ call : RecordCall, call.entry = entry ∧
      World.SameFiles { w with auditLog := (w.auditLog.call env.toPlatform env.audit call).2 } w' ∧
      OnOk (fun _ => ∃ full, (w.auditLog.call env.toPlatform env.audit call).1 = .ok full) r) w := by
  refine wp_iff.mpr ⟨⟨⟨!(nextFault w.faults).1, !(nextFault (nextFault w.faults).2).1⟩,
    env.randomUUID w.supply, entry, now⟩, rfl, ?_⟩
  unfold after result auditRecord AuditLog.call
  dsimp only
  generalize w.auditLog.record env.toPlatform env.audit _ (env.randomUUID w.supply) entry now = recorded
  obtain ⟨full | err, log⟩ := recorded
  · exact ⟨⟨rfl, rfl, rfl, rfl, rfl, rfl⟩, trivial⟩
  · exact ⟨⟨rfl, rfl, rfl, rfl, rfl, rfl⟩, _, rfl⟩

theorem respects_auditRecord {entry : AuditEntryInput} (h : entry.AttributedTo operators agents)
    (now : Int) : Respects I (auditRecord env entry now) := by
  refine fun w hw => wp_mono (wp_auditRecord_call entry now w) ?_
  rintro r w' ⟨call, rfl, hsame, -⟩
  exact ⟨I.unrecorded _ _ (I.logged w call h hw) hsame, fun _ _ => trivial⟩

/-! ### The circuit breaker and the stores -/

theorem respects_onStateChange (change : CircuitStateChange) :
    Respects I (onStateChange env change) := by
  have hcircuit : ∀ decision reason, decision = .circuitOpened ∨ decision = .circuitClosed →
      (circuitEntry decision reason).AttributedTo operators agents := by
    rintro _ reason (rfl | rfl)
    · exact .inl rfl
    · exact .inl rfl
  refine Keeps.bind respects_now fun t => ?_
  cases change.target with
  | halfOpen => exact Keeps.pure
  | opened => exact respects_auditRecord (hcircuit _ _ (.inl rfl)) _
  | closed => exact respects_auditRecord (hcircuit _ _ (.inr rfl)) _

theorem respects_breakerTransition
    (transition : CircuitBreaker → CircuitBreaker × Option CircuitStateChange) :
    Respects I (breakerTransition env transition) := by
  refine Keeps.get_bind fun w hw => ?_
  generalize transition w.storeCircuitBreaker = result
  obtain ⟨b, change⟩ := result
  refine Keeps.bind (Keeps.set (I.unrecorded _ _ hw ⟨rfl, rfl, rfl, rfl, rfl, rfl⟩)) fun _ => ?_
  cases change with
  | none => exact Keeps.pure
  | some change => exact respects_onStateChange change

theorem respects_execute {fn : Op α} (hfn : Respects I fn) :
    Respects I (execute env fn) := by
  refine Keeps.get_bind fun w hw => Keeps.ite (Keeps.throw trivial) ?_
  refine Keeps.bind (Keeps.set (I.unrecorded _ _ hw ⟨rfl, rfl, rfl, rfl, rfl, rfl⟩)) fun _ => ?_
  refine Keeps.bind (respects_attempt (Keeps.ite (Keeps.throw trivial) (Keeps.bind hfn fun _ =>
    Keeps.bind (respects_breakerTransition _) fun _ => Keeps.pure))) fun outcome => ?_
  cases outcome with
  | ok result => exact Keeps.pure
  | error err => exact Keeps.bind (respects_breakerTransition _) fun _ => Keeps.throw trivial

theorem respects_saveRecord {ρ : Type} {key : ρ → String} {image : ρ → ρ}
    {store : World → Journal String ρ} {put : World → Journal String ρ → World} {record : ρ}
    (hput : ∀ w faults appended, I.holds w →
      I.holds (put { w with faults := faults } ((store w).save key image appended record))) :
    Respects I (saveRecord key image store put record) := by
  refine fun w hw => wp_iff.mpr ⟨?_, fun _ _ => trivial⟩
  simp only [after, saveRecord]
  cases (nextFault w.faults).1 <;> exact hput _ _ _ hw

theorem respects_saveToken (t : Token) : Respects I (saveRecord Token.id Token.image World.tokenStore
    (fun w store => { w with tokenStore := store }) t) :=
  respects_saveRecord fun w _ appended hw =>
    I.unrecorded _ _ (I.tokenSaved w appended _ hw) ⟨rfl, rfl, rfl, rfl, rfl, rfl⟩

theorem respects_tokenStore_save (t : Token) : Respects I (TokenStore.save env t) :=
  respects_execute (respects_saveToken t)

theorem respects_tokenStore_get (id : String) : Respects I (TokenStore.get env id) :=
  respects_execute (Keeps.bind Keeps.get fun _ => Keeps.pure)

theorem respects_savePolicy (policy : Policy) : Respects I (saveRecord Policy.id Policy.image
    World.policyStore (fun w store => { w with policyStore := store }) policy) :=
  respects_saveRecord fun w _ appended hw =>
    I.unrecorded _ _ (I.policySaved w appended _ hw) ⟨rfl, rfl, rfl, rfl, rfl, rfl⟩

theorem respects_policyStore_save (policy : Policy) : Respects I (PolicyStore.save env policy) :=
  respects_execute (respects_savePolicy policy)

theorem respects_policyStore_get (id : String) : Respects I (PolicyStore.get env id) :=
  respects_execute (Keeps.bind Keeps.get fun _ => Keeps.pure)

theorem respects_requestStore_save (r : PendingRequest) :
    Respects I (RequestStore.save r) := respects_saveRecord fun w _ appended hw =>
    I.unrecorded _ _ (I.requestSaved w appended _ hw) ⟨rfl, rfl, rfl, rfl, rfl, rfl⟩

theorem respects_requestStore_get (id : String) : Respects I (RequestStore.get id) :=
  Keeps.bind Keeps.get fun _ => Keeps.pure

theorem respects_identityStore_save (identity : AgentIdentity) :
    Respects I (AgentIdentityStore.save identity) := respects_saveRecord fun w _ appended hw =>
    I.unrecorded _ _ (I.identitySaved w appended _ hw) ⟨rfl, rfl, rfl, rfl, rfl, rfl⟩

theorem respects_ruleStore_save (rule : RedactionRule) : Respects I (RedactionRuleStore.save rule) :=
  respects_saveRecord fun w _ appended hw =>
    I.unrecorded _ _ (I.ruleSaved w appended _ hw) ⟨rfl, rfl, rfl, rfl, rfl, rfl⟩

/-! ### Requests -/

theorem respects_requestToken {request : SubmittedRequest} (h : agents request.subject)
    (primaryApprover : Option String) (now : Int) :
    Respects I (requestToken env request primaryApprover now) := by
  refine Keeps.bind Keeps.get fun w => ?_
  cases existingRequest w request with
  | some existing => exact Keeps.pure
  | none =>
    refine Keeps.bind (respects_draw _) fun id => Keeps.bind (respects_requestStore_save _) fun _ =>
      Keeps.bind (respects_auditRecord (by exact h) _) fun _ => ?_
    exact Keeps.bind (respects_of_same fun _ => ⟨rfl, rfl, rfl, rfl, rfl, rfl⟩) fun anomaly =>
      Keeps.bind (Keeps.ite (respects_auditRecord (by exact h) _) Keeps.pure) fun _ => Keeps.pure

theorem respects_getPending (requestId verb : String) :
    Respects I (getPending requestId verb) := by
  refine Keeps.bind (respects_requestStore_get _) fun found => ?_
  cases found with
  | none => exact Keeps.throw trivial
  | some pending => exact Keeps.bind (Keeps.throwIf trivial) fun _ => Keeps.pure

theorem respects_assertEligibleDecider (pending : PendingRequest) {approver : String}
    (h : operators (some approver)) (action : String) (now : Int) :
    Respects I (assertEligibleDecider env pending approver action now) :=
  Keeps.ite Keeps.pure (Keeps.bind (respects_auditRecord (by exact h) _) fun _ =>
    Keeps.throw trivial)

theorem respects_checkPolicy (request : TokenRequest) (policyId : String) (hasPolicyStore : Bool) :
    Respects I (checkPolicy env request policyId hasPolicyStore) := by
  refine Keeps.bind (Keeps.throwIf trivial) fun _ =>
    Keeps.bind (respects_policyStore_get _) fun found => ?_
  cases found with
  | none => exact Keeps.throw trivial
  | some policy => exact Keeps.bind (Keeps.throwIf trivial) fun _ => Keeps.throwIf trivial

theorem respects_issueToken (request : TokenRequest) (hasPolicyStore : Bool) :
    Respects I (issueToken env request hasPolicyStore) := by
  refine Keeps.bind (Keeps.throwIf trivial) fun _ => Keeps.bind (Keeps.throwIf trivial) fun _ =>
    Keeps.bind ?_ fun _ => Keeps.bind respects_now fun issuedAt => Keeps.bind ?_ fun parent =>
      Keeps.bind (respects_draw _) fun _ => Keeps.bind (respects_draw _) fun _ => Keeps.pure
  · cases truthy request.policyId with
    | some policyId => exact respects_checkPolicy request policyId hasPolicyStore
    | none => exact Keeps.pure
  · cases truthy request.parentTokenId with
    | some parentTokenId => exact respects_tokenStore_get parentTokenId
    | none => exact Keeps.pure

theorem respects_issue (frame : IssueFrame) : Respects I (frame.resume env) :=
  Keeps.bind (respects_draw _) fun _ => Keeps.bind (respects_tokenStore_save _) fun _ => Keeps.pure

theorem respects_catchApprovalFailure {input : ApprovalInput} (h : operators (some input.approver))
    (pending : PendingRequest) {issue : Op α} (hissue : Respects I issue) :
    Respects I (catchApprovalFailure env input pending issue) := by
  refine Keeps.bind (Keeps.attempt hissue) fun r => ?_
  cases r with
  | ok value => exact Keeps.pure
  | error err =>
    refine Keeps.bind ?_ fun _ => Keeps.throw trivial
    cases err.approvalFailure with
    | some message => exact respects_auditRecord (by exact h) _
    | none => exact Keeps.pure

theorem respects_denyRequest (requestId : String) {approver : String} (h : operators (some approver))
    (reasonCode : DenialReason) (now : Int) :
    Respects I (denyRequest env requestId approver reasonCode now) :=
  Keeps.bind (respects_getPending _ _) fun _ =>
    Keeps.bind (respects_assertEligibleDecider _ h _ _) fun _ =>
      Keeps.bind (respects_requestStore_save _) fun _ => respects_auditRecord (by exact h) _

theorem respects_checkRequestTimeout (requestId : String) (decisionWindowMs : JsNumber)
    (backupApprover : Option String) (now : Int) : Respects I
      (checkRequestTimeout env requestId decisionWindowMs backupApprover now) := by
  unfold checkRequestTimeout
  cases truthy backupApprover with
  | none => exact Keeps.pure
  | some backup =>
    refine Keeps.bind (respects_requestStore_get _) fun found => ?_
    cases found with
    | none => exact Keeps.pure
    | some pending =>
      exact Keeps.ite (Keeps.bind (respects_requestStore_save _) fun _ =>
        respects_auditRecord (by exact rfl) _) Keeps.pure

theorem respects_claimTokenSecret (requestId : String) {requestingSubject : String}
    (h : agents requestingSubject) (now : Int) :
    Respects I (claimTokenSecret env requestId requestingSubject now) := by
  refine Keeps.bind (respects_requestStore_get _) fun found => ?_
  cases found with
  | none => exact Keeps.throw trivial
  | some pending =>
    refine Keeps.ite (Keeps.bind (respects_auditRecord
      (by exact rfl) _) fun _ => Keeps.throw trivial) ?_
    split
    · exact Keeps.bind (respects_requestStore_save _) fun _ =>
        Keeps.bind (respects_auditRecord (by exact h) _) fun _ => Keeps.pure
    · exact Keeps.throw trivial
    · exact Keeps.throw trivial

/-! ### The gateway -/

theorem respects_denyEnforcement (tokenId subject action : String) (now : Int)
    (reasonCode : EnforcementDenialReason) (message : String) : Respects I
      (denyEnforcement env tokenId subject action now reasonCode message) :=
  Keeps.bind (respects_auditRecord (by exact rfl) _) fun _ =>
    Keeps.pure

theorem respects_enforceToken (tokenId providedSecret action : String) (now : Int) :
    Respects I (enforceToken env tokenId providedSecret action now) := by
  refine Keeps.bind (Keeps.attempt (respects_tokenStore_get _)) fun found => ?_
  rcases found with err | _ | token
  · cases err with
    | circuitOpen => exact Keeps.bind (respects_denyEnforcement _ _ _ _ _ _) fun _ => Keeps.pure
    | _ => exact Keeps.throw trivial
  · exact Keeps.bind (respects_denyEnforcement _ _ _ _ _ _) fun _ => Keeps.pure
  · exact Keeps.pure

theorem respects_enforce (frame : EnforceFrame) : Respects I (frame.resume env) := by
  refine Keeps.ite (respects_denyEnforcement _ _ _ _ _ _) ?_
  split
  · exact Keeps.bind (respects_auditRecord (by exact rfl) _)
      fun _ => Keeps.pure
  · exact respects_denyEnforcement _ _ _ _ _ _

theorem respects_loopNext (loop : AccessLoop) (lastError : Err) :
    Respects I (loop.next env lastError) := by
  refine Keeps.ite (Keeps.bind Keeps.get fun _ => Keeps.pure) ?_
  split
  · exact Keeps.bind (respects_auditRecord (by exact rfl) _)
      fun _ => Keeps.pure
  · exact Keeps.throw trivial

theorem respects_loopFailed (loop : AccessLoop) (err : Err) :
    Respects I (loop.failed env err) := Keeps.ite Keeps.pure (respects_loopNext _ _)

theorem respects_accessAfter (input : AccessInput) (decision : EnforcementDecision) :
    Respects I (accessAfter env input decision) := by
  cases decision with
  | denied => exact Keeps.pure
  | allowed => exact Keeps.bind (respects_tokenStore_get _) fun _ => respects_loopNext _ _

theorem respects_accessMockEndpoint (input : AccessInput) :
    Respects I (accessMockEndpoint env input) := by
  refine Keeps.bind (respects_enforceToken _ _ _ _) fun progress => ?_
  cases progress with
  | awaiting => exact Keeps.pure
  | returned decision => exact respects_accessAfter input decision

theorem respects_access (downstream : Downstream) (frame : AccessFrame) :
    Respects I (frame.resume env downstream) := by
  cases frame with
  | enforcing input frame =>
    exact Keeps.bind (respects_enforce frame) fun decision => respects_accessAfter input decision
  | calling loop accepted =>
    refine Keeps.ite (Keeps.bind (respects_attempt (respects_auditRecord
      (by exact rfl) _)) fun r => ?_) (respects_loopFailed _ _)
    cases r with
    | ok => exact Keeps.pure
    | error err => exact respects_loopFailed _ _
  | sleeping loop lastError => exact respects_loopNext _ _

theorem respects_customerDataAfter (input : CustomerAccessInput) (decision : EnforcementDecision) :
    Respects I (customerDataAfter env input decision) := by
  have hdeny : ∀ reasonCode message,
      Respects I (denyCustomerAccess env input reasonCode message) := fun _ _ =>
    Keeps.bind (respects_auditRecord (by exact rfl) _) fun _ =>
      Keeps.pure
  cases decision with
  | denied => exact Keeps.pure
  | allowed =>
    unfold customerDataAfter
    cases env.customerRegistry input.customerId with
    | none => exact hdeny _ _
    | some customer =>
      refine Keeps.bind Keeps.get fun w => ?_
      cases w.redactionRuleStore.live.get input.redactionRuleId with
      | none => exact hdeny _ _
      | some rule =>
        exact Keeps.bind (respects_tokenStore_get _) fun token => Keeps.bind (respects_auditRecord
          (by exact rfl) _) fun _ => Keeps.pure

theorem respects_accessCustomerData (input : CustomerAccessInput) :
    Respects I (accessCustomerData env input) := by
  refine Keeps.bind (respects_enforceToken _ _ _ _) fun progress => ?_
  cases progress with
  | awaiting => exact Keeps.pure
  | returned decision => exact Keeps.bind (respects_customerDataAfter _ _) fun _ => Keeps.pure

/-! ### Delegation, revocation and lineage -/

theorem respects_denyDelegation (input : DelegationInput) (reasonCode : DelegationDenialReason) :
    Respects I (denyDelegation env input reasonCode) :=
  Keeps.bind (respects_auditRecord (by exact rfl) _) fun _ =>
    Keeps.pure

theorem respects_catchCircuitOpen (input : DelegationInput) (result : Except Err α)
    {k : α → Op (Progress DelegateFrame DelegationDecision)}
    (hk : ∀ a, Respects I (k a)) :
    Respects I (catchCircuitOpen env input result k) := by
  cases result with
  | ok a => exact hk a
  | error err =>
    cases err with
    | circuitOpen => exact Keeps.bind (respects_denyDelegation input _) fun _ => Keeps.pure
    | _ => exact Keeps.throw trivial

theorem respects_delegateToken (input : DelegationInput) :
    Respects I (delegateToken env input) := by
  refine Keeps.bind (Keeps.attempt (respects_tokenStore_get _)) fun found => ?_
  rcases found with err | _ | parent
  · cases err with
    | circuitOpen => exact Keeps.bind (respects_denyDelegation input _) fun _ => Keeps.pure
    | _ => exact Keeps.throw trivial
  · exact Keeps.bind (respects_denyDelegation input _) fun _ => Keeps.pure
  · exact Keeps.pure

theorem respects_delegate (frame : DelegateFrame) : Respects I (frame.resume env) := by
  cases frame with
  | verifying input parent =>
    simp only [DelegateFrame.resume]
    cases delegationDenial env input parent with
    | some reasonCode => exact Keeps.bind (respects_denyDelegation input _) fun _ => Keeps.pure
    | none =>
      exact Keeps.bind (Keeps.attempt (respects_issueToken _ _)) fun issue =>
        respects_catchCircuitOpen input issue fun _ => Keeps.pure
  | issuing input issue =>
    exact Keeps.bind (Keeps.attempt (respects_issue _)) fun issued =>
      respects_catchCircuitOpen input issued fun _ => Keeps.bind (respects_auditRecord
        (by exact rfl) _) fun _ => Keeps.pure

theorem respects_cascadeRevokeAux (now : Int) {actor : Option String} (h : operators actor) (fuel : ℕ)
    (parentId : String) :
    Respects I (cascadeRevokeAux env now actor fuel parentId) := by
  induction fuel generalizing parentId with
  | zero => exact Keeps.pure
  | succ fuel ih =>
    exact Keeps.bind Keeps.get fun w => Keeps.forM fun child _ =>
      Keeps.ite (Keeps.bind (respects_tokenStore_save _) fun _ =>
        Keeps.bind (respects_auditRecord (by exact h) _) fun _ => ih child.id) Keeps.pure

theorem respects_revokeToken (tokenId : String) (reasonCode : RevocationReason) (now : Int)
    {actor : Option String} (h : operators actor) :
    Respects I (revokeToken env tokenId reasonCode now actor) := by
  refine Keeps.bind (respects_tokenStore_get _) fun found => ?_
  cases found with
  | none => exact Keeps.throw trivial
  | some token =>
    exact Keeps.bind (respects_tokenStore_save _) fun _ =>
      Keeps.bind (respects_auditRecord (by exact h) _) fun _ =>
        Keeps.bind (Keeps.bind Keeps.get fun _ => respects_cascadeRevokeAux _ h _ _) fun _ => Keeps.pure

theorem respects_lineageChain (fuel : ℕ) (current : Token) (chain : List Token) :
    Respects I (lineageChain env fuel current chain) := by
  induction fuel generalizing current chain with
  | zero => exact Keeps.pure
  | succ fuel ih =>
    unfold lineageChain
    cases truthy current.parentTokenId with
    | none => exact Keeps.pure
    | some parentTokenId =>
      refine Keeps.bind (respects_tokenStore_get _) fun found => ?_
      cases found with
      | none => exact Keeps.pure
      | some parent => exact ih parent _

theorem respects_getTokenLineage (fuel : ℕ) (tokenId : String) :
    Respects I (getTokenLineage env fuel tokenId) := by
  refine Keeps.bind (respects_tokenStore_get _) fun found => ?_
  cases found with
  | none => exact Keeps.throw trivial
  | some target =>
    refine Keeps.bind (respects_lineageChain _ _ _) fun chain => ?_
    cases chain with
    | none => exact Keeps.pure
    | some chain => exact Keeps.bind Keeps.get fun _ => Keeps.pure

/-! ### Policies, rules and agents -/

theorem respects_validate (input : PolicyInput) : Respects I input.validate :=
  Keeps.bind (Keeps.throwIf trivial) fun _ => Keeps.bind (Keeps.throwIf trivial) fun _ =>
    Keeps.throwIf trivial

theorem respects_createPolicy (input : PolicyInput) {authoredBy : String} (h : operators (some authoredBy))
    (now : Int) : Respects I (createPolicy env input authoredBy now) :=
  Keeps.bind (respects_validate _) fun _ => Keeps.bind (respects_draw _) fun _ =>
    Keeps.bind (respects_policyStore_save _) fun _ => Keeps.bind (respects_auditRecord (by exact h) _) fun _ =>
      Keeps.pure

theorem respects_modifyPolicy (policyId : String) (changes : PolicyChanges) {authoredBy : String}
    (h : operators (some authoredBy)) (now : Int) :
    Respects I (modifyPolicy env policyId changes authoredBy now) := by
  refine Keeps.bind (respects_policyStore_get _) fun found => ?_
  cases found with
  | none => exact Keeps.throw trivial
  | some existing =>
    exact Keeps.bind (respects_validate _) fun _ => Keeps.bind (respects_policyStore_save _) fun _ =>
      Keeps.bind (respects_auditRecord (by exact h) _) fun _ => Keeps.pure

theorem respects_validateRule (input : RedactionRuleInput) : Respects I input.validate := by
  refine Keeps.bind (Keeps.throwIf trivial) fun _ => Keeps.bind (Keeps.throwIf trivial) fun _ => ?_
  cases RedactionRuleInput.fieldError input.sensitiveFields with
  | some err => exact Keeps.throw trivial
  | none => exact Keeps.pure

theorem respects_createRedactionRule (input : RedactionRuleInput) {authoredBy : String}
    (h : operators (some authoredBy) ∨ authoredBy = "system") (now : Int) :
    Respects I (createRedactionRule env input authoredBy now) :=
  Keeps.bind (respects_validateRule _) fun _ => Keeps.bind (respects_draw _) fun _ =>
    Keeps.bind (respects_ruleStore_save _) fun _ => Keeps.bind (respects_auditRecord (by exact h) _)
      fun _ => Keeps.pure

theorem respects_validateAgentIdentity (subject : String) : Respects I (validateAgentIdentity subject) :=
  Keeps.bind (Keeps.throwIf trivial) fun _ => Keeps.bind Keeps.get fun _ => Keeps.throwIf trivial

theorem respects_register {frame : RegisterFrame} (h : operators (some frame.createdBy)) :
    Respects I (frame.resume env) :=
  Keeps.bind (respects_identityStore_save _) fun _ =>
    Keeps.bind (respects_auditRecord (by exact h) _) fun _ => Keeps.pure

theorem respects_authenticateAgent (credential : String) :
    Respects I (authenticateAgent credential) := by
  unfold authenticateAgent
  split
  · exact Keeps.pure
  · refine Keeps.bind Keeps.get fun w => ?_
    split
    · exact Keeps.pure
    · exact Keeps.pure

/-! ## Calls -/

/-- What a piece of a call leaves, and the operator that it goes on for. -/
abbrev Respected (I : RecordPredicate env operators agents) :
    Except Err (Progress Frame Outcome) → World → Prop :=
  Upheld I.holds (Frame.MadeFor operators) fun _ _ => True

section
variable {w : World}

/-- A call that never awaits. -/
theorem wp_synchronously_respected {op : Op α} {outcome : α → Outcome}
    (h : Respects I op) (hw : I.holds w) :
    wp (synchronously op outcome) (Respected I) w := by
  refine wp_synchronously_upheld (wp_mono (h w hw) fun r w' hr => ⟨hr.state, ?_⟩)
  cases r with
  | error => trivial
  | ok a => trivial

/-- A call that stops at a frame without a party, or ends. -/
theorem wp_map_respected {φ : Type} {op : Op (Progress φ α)} {onFrame : φ → Frame}
    {onValue : α → Outcome} (h : Respects I op)
    (hframe : ∀ f, (onFrame f).MadeFor operators) (hw : I.holds w) :
    wp (do return (← op).map onFrame onValue) (Respected I) w := by
  refine wp_map_upheld (wp_mono (h w hw) fun r w' hr => ⟨hr.state, ?_⟩)
  cases r with
  | error => trivial
  | ok progress =>
    cases progress with
    | awaiting f => exact hframe f
    | returned a => trivial

/-- An approval, suspended, is the one that was started. -/
theorem wp_approveRequest_respected {input : ApprovalInput} (h : operators (some input.approver))
    (hw : I.holds w) : wp (approveRequest env input) (fun r w' =>
      I.holds w' ∧ OnOk (fun f => operators (some f.input.approver)) r) w := by
  refine wp_bind (wp_mono (respects_getPending _ _ w hw) fun r w₁ hr => ?_)
  cases r with
  | error => exact ⟨hr.state, trivial⟩
  | ok pending =>
    refine wp_bind (wp_mono (respects_assertEligibleDecider pending h _ _ w₁ hr.state)
      fun r w₂ hr => ?_)
    cases r with
    | error => exact ⟨hr.state, trivial⟩
    | ok =>
      refine wp_bind (wp_mono (respects_catchApprovalFailure h pending
        (respects_issueToken _ true) w₂ hr.state) fun r w₃ hr => ?_)
      cases r with
      | error => exact ⟨hr.state, trivial⟩
      | ok issue => exact wp_pure ⟨hr.state, h⟩

/-- A registration, suspended, is for the operator that started it. -/
theorem wp_registerAgentIdentity_respected {subject createdBy : String} {now : ℤ}
    (h : operators (some createdBy)) (hw : I.holds w) :
    wp (registerAgentIdentity env subject createdBy now) (fun r w' =>
      I.holds w' ∧ OnOk (fun f => operators (some f.createdBy)) r) w := by
  refine wp_bind (wp_mono (respects_validateAgentIdentity subject w hw) fun r w₁ hr => ?_)
  cases r with
  | error => exact ⟨hr.state, trivial⟩
  | ok =>
    have hdraw : ∀ {γ δ : Type} {value : ℕ → γ} {f : γ → Op δ} {Q : Except Err δ → World → Prop}
        {w : World}, I.holds w →
        (∀ a w', I.holds w' → wp (f a) Q w') → wp (draw value >>= f) Q w :=
      fun hw hf => wp_bind (wp_bind (wp_get (wp_bind (wp_set (wp_pure
        (hf _ _ (I.unrecorded _ _ hw ⟨rfl, rfl, rfl, rfl, rfl, rfl⟩)))))))
    exact hdraw hr.state fun _ _ hw => hdraw hw fun _ _ hw => hdraw hw fun _ _ hw => wp_pure ⟨hw, h⟩

end

/-- Every call that is made for one of them writes entries only for them. -/
theorem wp_startCall_respected {w : World} {call : Call} (hw : I.holds w)
    (hcall : call.MadeFor operators agents) :
    wp (startCall env call) (Respected I) w := by
  cases call with
  | requestToken request primaryApprover now =>
    exact wp_synchronously_respected (respects_requestToken hcall _ _) hw
  | approveRequest input =>
    refine wp_bind (wp_mono (wp_approveRequest_respected hcall hw) fun r w' ⟨hw', hr⟩ => ?_)
    cases r with
    | error => exact upheld_error hw'
    | ok frame => exact wp_pure (upheld_awaiting hw' hr)
  | denyRequest requestId approver reasonCode now =>
    exact wp_synchronously_respected (respects_denyRequest _ hcall _ _) hw
  | checkRequestTimeout requestId decisionWindowMs backupApprover now =>
    exact wp_synchronously_respected (respects_checkRequestTimeout _ _ _ _) hw
  | claimTokenSecret requestId requestingSubject now =>
    exact wp_synchronously_respected (respects_claimTokenSecret _ hcall _) hw
  | delegateToken input =>
    exact wp_map_respected (respects_delegateToken input) (fun _ => trivial) hw
  | enforceToken tokenId providedSecret action now =>
    exact wp_map_respected (respects_enforceToken _ _ _ _) (fun _ => trivial) hw
  | accessMockEndpoint input =>
    exact wp_map_respected (respects_accessMockEndpoint input) (fun _ => trivial) hw
  | accessCustomerData input =>
    exact wp_map_respected (respects_accessCustomerData input) (fun _ => trivial) hw
  | revokeToken tokenId reasonCode now actor =>
    exact wp_synchronously_respected (respects_revokeToken _ _ _ hcall) hw
  | getTokenLineage tokenId =>
    exact wp_bind (wp_get (wp_synchronously_respected (respects_getTokenLineage _ _)
      hw))
  | createPolicy input authoredBy now =>
    exact wp_synchronously_respected (respects_createPolicy _ hcall _) hw
  | modifyPolicy policyId changes authoredBy now =>
    exact wp_synchronously_respected (respects_modifyPolicy _ _ hcall _) hw
  | createRedactionRule input authoredBy now =>
    exact wp_synchronously_respected (respects_createRedactionRule _ (.inl hcall) _)
      hw
  | registerAgentIdentity subject createdBy now =>
    refine wp_bind (wp_mono (wp_registerAgentIdentity_respected hcall hw) fun r w' ⟨hw', hr⟩ => ?_)
    cases r with
    | error => exact upheld_error hw'
    | ok frame => exact wp_pure (upheld_awaiting hw' hr)
  | authenticateAgent credential =>
    exact wp_map_respected (respects_authenticateAgent credential) (fun _ => trivial) hw
  | recordLogin username matched now =>
    exact wp_synchronously_respected (Keeps.ite (respects_auditRecord (by exact rfl) _)
      (respects_auditRecord (by exact rfl) _)) hw
  | simulateOutage down | setDown system down =>
    exact wp_synchronously_respected (respects_of_same fun _ => ⟨rfl, rfl, rfl, rfl, rfl, rfl⟩) hw
  | recordOutageToggle down now =>
    refine wp_synchronously_respected (respects_auditRecord ?_ _) hw
    cases down with
    | false => exact .inr rfl
    | true => exact .inr rfl

theorem wp_resumeFrame_respected {w : World} (downstream : Downstream) {f : Frame}
    (hw : I.holds w) (hf : f.MadeFor operators) :
    wp (resumeFrame env downstream f) (Respected I) w := by
  cases f with
  | approve frame =>
    refine wp_synchronously_respected ?_ hw
    exact Keeps.bind (respects_catchApprovalFailure hf _ (respects_issue _)) fun issued =>
      Keeps.bind (respects_requestStore_save _) fun _ =>
        Keeps.bind (respects_auditRecord (by exact hf) _) fun _ => Keeps.pure
  | delegate frame =>
    exact wp_map_respected (respects_delegate frame) (fun _ => trivial) hw
  | enforce frame => exact wp_synchronously_respected (respects_enforce frame) hw
  | access frame =>
    exact wp_map_respected (respects_access downstream frame) (fun _ => trivial) hw
  | customer frame =>
    exact wp_synchronously_respected (Keeps.bind (respects_enforce frame.enforce) fun _ =>
      respects_customerDataAfter _ _) hw
  | register frame => exact wp_synchronously_respected (respects_register hf) hw
  | authenticate frame => exact wp_pure (upheld_returned hw trivial)

theorem RecordPredicate.boot (I : RecordPredicate env operators agents) {w : World} (h : I.holds w) :
    I.holds (w.boot env) := by
  have hrule : Respects I (defaultRedactionRule env) := by
    refine Keeps.bind Keeps.get fun w => ?_
    cases w.redactionRuleStore.live.values.find? fun r => r.name = standardRule.name with
    | some rule => exact Keeps.pure
    | none => exact Keeps.bind respects_now fun _ => respects_createRedactionRule _ (.inr rfl) _
  have hstate := (wp_iff.mp (hrule w h)).state
  have hboot : w.boot env = after (defaultRedactionRule env) w := by
    unfold World.boot after
    cases defaultRedactionRule env w <;> rfl
  rw [hboot]
  exact hstate

/-- The runs whose calls are made for these parties. -/
def RecordInvariant.calls (I : RecordInvariant env operators agents) : CallInvariant env where
  allowed := Call.MadeFor operators agents
  world := I.holds
  frame _ := Frame.MadeFor operators
  outcome _ _ _ := True
  boots _ h := I.boot h
  restarts := I.restarted
  clock _ _ h := I.unrecorded _ _ h ⟨rfl, rfl, rfl, rfl, rfl, rfl⟩
  starts _ _ := wp_startCall_respected
  resumes _ _ downstream _ := wp_resumeFrame_respected downstream

end Ambit
