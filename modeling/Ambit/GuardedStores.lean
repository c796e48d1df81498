import Ambit.DelegationOutcome

/-! Which pieces of the calls go through the circuit breaker. What happens around the accesses to the
guarded stores leaves the breaker alone, and throws no rejection of its own. -/

namespace Ambit

open Effect

variable {env : Env} {α β : Type} {B : CircuitBreaker → Prop}

/-- The error is no rejection by the breaker. -/
def Err.Calm (err : Err) : Prop := ∀ message, err ≠ .circuitOpen message

/-- No file operation fails, and the breaker is in one of the states. -/
abbrev World.With (B : CircuitBreaker → Prop) (w : World) : Prop :=
  w.Faultless ∧ B w.storeCircuitBreaker

/-- As long as no file operation fails, the operation keeps what holds of the breaker, and no
rejection comes out of it. -/
abbrev Calmly (B : CircuitBreaker → Prop) (x : Op α) : Prop := Keeps (World.With B) Err.Calm x

/-! ## The world -/

theorem calmly_now : Calmly B now := Keeps.bind Keeps.get fun _ => Keeps.pure

theorem calmly_draw (value : ℕ → α) : Calmly B (draw value) :=
  Keeps.get_bind fun _ hw => Keeps.bind (Keeps.set hw) fun _ => Keeps.pure

theorem calmly_auditRecord (entry : AuditEntryInput) (now : Int) :
    Calmly B (auditRecord env entry now) := by
  intro w ⟨hfaultless, hB⟩
  cases hreason : entry.lacksReason with
  | false =>
    exact Faultless.wp_auditRecord hfaultless hreason (kept_ok ⟨hfaultless, hB⟩)
  | true =>
    refine Faultless.wp_auditRecord_refused hfaultless hreason fun message => ?_
    exact kept_error ⟨hfaultless, hB⟩ fun _ => Err.noConfusion

theorem calmly_saveRecord {ρ : Type} {key : ρ → String} {image : ρ → ρ}
    {store : World → Journal String ρ} {put : World → Journal String ρ → World} {record : ρ}
    (hfaults : ∀ w j, (put w j).faults = w.faults)
    (hbreaker : ∀ w j, (put w j).storeCircuitBreaker = w.storeCircuitBreaker) :
    Calmly B (saveRecord key image store put record) := by
  refine Keeps.of_ok fun w ⟨hfaultless, hB⟩ => ⟨Faultless.saveRecord_run hfaultless, ?_, ?_⟩
  · exact (hfaults ..).trans hfaultless
  · rw [hbreaker]
    exact hB

theorem calmly_requestStore_get (requestId : String) : Calmly B (RequestStore.get requestId) :=
  Keeps.bind Keeps.get fun _ => Keeps.pure

theorem calmly_requestStore_save (r : PendingRequest) : Calmly B (RequestStore.save r) :=
  calmly_saveRecord (fun _ _ => rfl) fun _ _ => rfl

theorem calmly_redactionRuleStore_save (rule : RedactionRule) :
    Calmly B (RedactionRuleStore.save rule) :=
  calmly_saveRecord (fun _ _ => rfl) fun _ _ => rfl

theorem calmly_agentIdentityStore_save (identity : AgentIdentity) :
    Calmly B (AgentIdentityStore.save identity) :=
  calmly_saveRecord (fun _ _ => rfl) fun _ _ => rfl

/-! ## Calls that go nowhere near the guarded stores -/

theorem calmly_checkAnomaly (subject : String) (scope : List String) (now : Int) :
    Calmly B (checkAnomaly env subject scope now) := by
  refine Keeps.get_bind fun w hw => ?_
  obtain ⟨result, detector⟩ := w.anomalyDetector.check env.anomaly subject scope now
  exact Keeps.bind (Keeps.set hw) fun _ => Keeps.pure

theorem calmly_requestToken (request : SubmittedRequest) (primaryApprover : Option String)
    (now : Int) : Calmly B (requestToken env request primaryApprover now) := by
  refine Keeps.get_bind fun w _ => ?_
  cases existingRequest w request with
  | some existing => exact Keeps.pure
  | none =>
    refine Keeps.bind (calmly_draw _) fun id => Keeps.bind (calmly_requestStore_save _) fun _ => ?_
    refine Keeps.bind (calmly_auditRecord _ _) fun _ => Keeps.bind (calmly_checkAnomaly _ _ _) fun _ => ?_
    exact Keeps.bind (Keeps.ite (calmly_auditRecord _ _) Keeps.pure) fun _ => Keeps.pure

theorem calmly_getPending (requestId verb : String) : Calmly B (getPending requestId verb) := by
  refine Keeps.bind (calmly_requestStore_get requestId) fun found => ?_
  cases found with
  | none => exact Keeps.throw fun _ => Err.noConfusion
  | some pending => exact Keeps.bind (Keeps.throwIf fun _ => Err.noConfusion) fun _ => Keeps.pure

theorem calmly_assertEligibleDecider (pending : PendingRequest) (approver action : String)
    (now : Int) : Calmly B (assertEligibleDecider env pending approver action now) :=
  Keeps.ite Keeps.pure (Keeps.bind (calmly_auditRecord _ _) fun _ =>
    Keeps.throw fun _ => Err.noConfusion)

theorem calmly_denyRequest (requestId approver : String) (reasonCode : DenialReason) (now : Int) :
    Calmly B (denyRequest env requestId approver reasonCode now) :=
  Keeps.bind (calmly_getPending _ _) fun _ => Keeps.bind (calmly_assertEligibleDecider _ _ _ _) fun _ =>
    Keeps.bind (calmly_requestStore_save _) fun _ => calmly_auditRecord _ _

theorem calmly_checkRequestTimeout (requestId : String) (decisionWindowMs : JsNumber)
    (backupApprover : Option String) (now : Int) :
    Calmly B (checkRequestTimeout env requestId decisionWindowMs backupApprover now) := by
  unfold checkRequestTimeout
  cases truthy backupApprover with
  | none => exact Keeps.pure
  | some backup =>
    refine Keeps.bind (calmly_requestStore_get requestId) fun found => ?_
    cases found with
    | none => exact Keeps.pure
    | some pending =>
      exact Keeps.ite (Keeps.bind (calmly_requestStore_save _) fun _ => calmly_auditRecord _ _)
        Keeps.pure

theorem calmly_claimTokenSecret (requestId requestingSubject : String) (now : Int) :
    Calmly B (claimTokenSecret env requestId requestingSubject now) := by
  refine Keeps.bind (calmly_requestStore_get requestId) fun found => ?_
  cases found with
  | none => exact Keeps.throw fun _ => Err.noConfusion
  | some pending =>
    refine Keeps.ite (Keeps.bind (calmly_auditRecord _ _) fun _ =>
      Keeps.throw fun _ => Err.noConfusion) ?_
    split
    · exact Keeps.bind (calmly_requestStore_save _) fun _ =>
        Keeps.bind (calmly_auditRecord _ _) fun _ => Keeps.pure
    · exact Keeps.throw fun _ => Err.noConfusion
    · exact Keeps.throw fun _ => Err.noConfusion

theorem RedactionRuleInput.fieldError_calm {fields : List (String × String)} {err : Err}
    (h : fieldError fields = some err) : err.Calm := by
  induction fields with
  | nil => cases h
  | cons field rest ih =>
    obtain ⟨name, requiredScope⟩ := field
    rw [fieldError] at h
    split at h
    · cases h
      exact fun _ => Err.noConfusion
    · split at h
      · cases h
        exact fun _ => Err.noConfusion
      · exact ih h

theorem calmly_createRedactionRule (input : RedactionRuleInput) (authoredBy : String) (now : Int) :
    Calmly B (createRedactionRule env input authoredBy now) := by
  have hvalidate : Calmly B input.validate := by
    refine Keeps.bind (Keeps.throwIf fun _ => Err.noConfusion) fun _ =>
      Keeps.bind (Keeps.throwIf fun _ => Err.noConfusion) fun _ => ?_
    cases herr : RedactionRuleInput.fieldError input.sensitiveFields with
    | none => exact Keeps.pure
    | some err => exact Keeps.throw (RedactionRuleInput.fieldError_calm herr)
  refine Keeps.bind hvalidate fun _ => Keeps.bind (calmly_draw _) fun id => ?_
  exact Keeps.bind (calmly_redactionRuleStore_save _) fun _ =>
    Keeps.bind (calmly_auditRecord _ _) fun _ => Keeps.pure

theorem calmly_registerAgentIdentity (subject createdBy : String) (now : Int) :
    Calmly B (registerAgentIdentity env subject createdBy now) := by
  have hvalidate : Calmly B (validateAgentIdentity subject) :=
    Keeps.bind (Keeps.throwIf fun _ => Err.noConfusion) fun _ =>
      Keeps.bind Keeps.get fun _ => Keeps.throwIf fun _ => Err.noConfusion
  exact Keeps.bind hvalidate fun _ => Keeps.bind (calmly_draw _) fun _ =>
    Keeps.bind (calmly_draw _) fun _ => Keeps.bind (calmly_draw _) fun _ => Keeps.pure

theorem RegisterFrame.calmly_resume (frame : RegisterFrame) : Calmly B (frame.resume env) :=
  Keeps.bind (calmly_agentIdentityStore_save _) fun _ =>
    Keeps.bind (calmly_auditRecord _ _) fun _ => Keeps.pure

theorem calmly_authenticateAgent (credential : String) : Calmly B (authenticateAgent credential) := by
  unfold authenticateAgent
  cases splitCredential credential with
  | none => exact Keeps.pure
  | some parts =>
    refine Keeps.bind Keeps.get fun w => ?_
    cases w.agentIdentityStore.live.get parts.1 with
    | none => exact Keeps.pure
    | some identity => exact Keeps.pure

theorem calmly_recordLogin (username : String) (matched : Bool) (now : Int) :
    Calmly B (recordLogin env username matched now) :=
  Keeps.ite (calmly_auditRecord _ _) (calmly_auditRecord _ _)

theorem calmly_setDown (system : MockSystem) (down : Bool) : Calmly B (setDown system down) :=
  Keeps.modify fun _ hw => hw

/-! ## Behind an open gate -/

/-- The breaker is closed and counts no failure. -/
def CircuitBreaker.Flowing (b : CircuitBreaker) : Prop :=
  b.state = .closed ∧ b.consecutiveFailures = 0 ∧ b.simulatingOutage = false

theorem World.flowing_iff {w : World} : w.Flowing ↔ w.storeCircuitBreaker.Flowing :=
  ⟨fun ⟨hclosed, hcount, hout⟩ => ⟨hclosed, hcount, hout⟩,
    fun ⟨hclosed, hcount, hout⟩ => ⟨hclosed, hcount, hout⟩⟩

theorem calmly_tokenStore_get (id : String) :
    Calmly CircuitBreaker.Flowing (TokenStore.get env id) := by
  intro w ⟨hfaultless, hB⟩
  have hflow := World.flowing_iff.mpr hB
  refine Faultless.tokenStore_get hfaultless (fun hrej => absurd hrej hflow.not_rejects) fun _ => ?_
  rw [hflow.accessed_eq]
  exact kept_ok ⟨hfaultless, hB⟩

theorem calmly_tokenStore_save (t : Token) :
    Calmly CircuitBreaker.Flowing (TokenStore.save env t) := by
  intro w ⟨hfaultless, hB⟩
  have hflow := World.flowing_iff.mpr hB
  refine Faultless.tokenStore_save hfaultless (fun hrej => absurd hrej hflow.not_rejects) fun _ => ?_
  rw [hflow.accessed_eq]
  exact kept_ok ⟨hfaultless, hB⟩

theorem calmly_policyStore_save (policy : Policy) :
    Calmly CircuitBreaker.Flowing (PolicyStore.save env policy) := by
  intro w ⟨hfaultless, hB⟩
  have hflow := World.flowing_iff.mpr hB
  refine Faultless.policyStore_save hfaultless (fun hrej => absurd hrej hflow.not_rejects) fun _ => ?_
  rw [hflow.accessed_eq]
  exact kept_ok ⟨hfaultless, hB⟩

theorem calmly_cascadeRevokeAux (now : Int) (actor : Option String) (fuel : ℕ) (parentId : String) :
    Calmly CircuitBreaker.Flowing (cascadeRevokeAux env now actor fuel parentId) := by
  induction fuel generalizing parentId with
  | zero => exact Keeps.pure
  | succ fuel ih =>
    refine Keeps.bind Keeps.get fun w => Keeps.forM fun child _ => Keeps.ite ?_ Keeps.pure
    exact Keeps.bind (calmly_tokenStore_save _) fun _ =>
      Keeps.bind (calmly_auditRecord _ _) fun _ => ih child.id

theorem calmly_lineageChain (fuel : ℕ) (current : Token) (chain : List Token) :
    Calmly CircuitBreaker.Flowing (lineageChain env fuel current chain) := by
  induction fuel generalizing current chain with
  | zero => exact Keeps.pure
  | succ fuel ih =>
    unfold lineageChain
    cases truthy current.parentTokenId with
    | none => exact Keeps.pure
    | some parentTokenId =>
      refine Keeps.bind (calmly_tokenStore_get parentTokenId) fun found => ?_
      cases found with
      | none => exact Keeps.pure
      | some parent => exact ih parent (parent :: chain)

/-! ## Through the gate -/

/-- The tokens, the policies and the requests are what they were, in memory and on disk. -/
structure World.SameRecords (w w' : World) : Prop where
  tokens : w'.tokenStore = w.tokenStore
  policies : w'.policyStore = w.policyStore
  requests : w'.requestStore = w.requestStore

/-- What an operation comes to that goes through the breaker: turned away at the first access it has
done nothing, and let through there it is turned away nowhere. -/
structure GoesThrough (env : Env) (x : Op α) (w : World) : Prop where
  rejected : w.Rejects env → ∃ message w', isBlank message = false ∧
    x w = .error (.circuitOpen message) w' ∧ w'.Faultless ∧ w.SameRecords w' ∧ w'.trail = w.trail
  admitted : ¬ w.Rejects env → wp x (Kept (World.With CircuitBreaker.Flowing) Err.Calm) w

theorem World.sameRecords_rejected (w : World) : w.SameRecords (w.rejected env) := by
  have hreported : ∀ (u : World) change, u.SameRecords (u.reported env change) := by
    intro u change
    unfold World.reported
    split <;> exact ⟨rfl, rfl, rfl⟩
  unfold World.rejected
  split
  · exact ⟨rfl, rfl, rfl⟩
  · let result := w.probe.onFailure env.circuitBreaker w.clock
    have hresult := hreported (w.withBreaker result.1) result.2
    exact ⟨hresult.tokens, hresult.policies, hresult.requests⟩

theorem World.SameRecords.trans {w w' w'' : World} (h : w.SameRecords w') (h' : w'.SameRecords w'') :
    w.SameRecords w'' :=
  ⟨h'.tokens.trans h.tokens, h'.policies.trans h.policies, h'.requests.trans h.requests⟩

variable {w : World}

theorem execute_goesThrough {fn : Op α} (h : w.Faultless)
    (hadmitted : ¬ w.Rejects env →
      wp (execute env fn) (Kept (World.With CircuitBreaker.Flowing) Err.Calm) w) :
    GoesThrough env (execute env fn) w := by
  refine ⟨fun hrejects => ?_, hadmitted⟩
  obtain ⟨message, hmessage, hrun⟩ := Faultless.execute_rejected h hrejects
  exact ⟨message, _, hmessage, hrun, h.rejected, w.sameRecords_rejected, World.trail_rejected⟩

theorem TokenStore.get_goesThrough (h : w.Faultless) (id : String) :
    GoesThrough env (TokenStore.get env id) w := by
  refine execute_goesThrough h fun hadmits => ?_
  refine Faultless.tokenStore_get h (fun hrejects => absurd hrejects hadmits) fun _ => ?_
  exact kept_ok ⟨h.accessed, World.flowing_iff.mp (World.flowing_accessed hadmits)⟩

theorem TokenStore.save_goesThrough (h : w.Faultless) (t : Token) :
    GoesThrough env (TokenStore.save env t) w := by
  refine execute_goesThrough h fun hadmits => ?_
  refine Faultless.tokenStore_save h (fun hrejects => absurd hrejects hadmits) fun _ => ?_
  have hflow := World.flowing_iff.mp (World.flowing_accessed hadmits)
  exact kept_ok ⟨h.accessed, hflow⟩

theorem PolicyStore.get_goesThrough (h : w.Faultless) (policyId : String) :
    GoesThrough env (PolicyStore.get env policyId) w := by
  refine execute_goesThrough h fun hadmits => ?_
  refine Faultless.policyStore_get h (fun hrejects => absurd hrejects hadmits) fun _ => ?_
  exact kept_ok ⟨h.accessed, World.flowing_iff.mp (World.flowing_accessed hadmits)⟩

theorem PolicyStore.save_goesThrough (h : w.Faultless) (policy : Policy) :
    GoesThrough env (PolicyStore.save env policy) w := by
  refine execute_goesThrough h fun hadmits => ?_
  refine Faultless.policyStore_save h (fun hrejects => absurd hrejects hadmits) fun _ => ?_
  have hflow := World.flowing_iff.mp (World.flowing_accessed hadmits)
  exact kept_ok ⟨h.accessed, hflow⟩

namespace GoesThrough

variable {x : Op α} {k : α → Op β}

theorem bind (hx : GoesThrough env x w) (hk : ∀ a, Calmly CircuitBreaker.Flowing (k a)) :
    GoesThrough env (x >>= k) w := by
  refine ⟨fun hrejects => ?_, fun hadmits => wp_bind_keeps (hx.admitted hadmits) hk⟩
  obtain ⟨message, w', hmessage, hrun, hrest⟩ := hx.rejected hrejects
  exact ⟨message, w', hmessage, bind_of_error hrun, hrest⟩

/-- What comes before the first access leaves the records, the log and the breaker as they are. -/
theorem after {a : α} {w' : World} (hx : x w = .ok a w')
    (hbreaker : w'.Rejects env ↔ w.Rejects env) (hrecords : w.SameRecords w')
    (htrail : w'.trail = w.trail) (h : GoesThrough env (k a) w') : GoesThrough env (x >>= k) w := by
  refine ⟨fun hrejects => ?_, fun hadmits => ?_⟩
  · obtain ⟨message, w'', hmessage, hrun, hfaultless, hrecords', htrail'⟩ :=
      h.rejected (hbreaker.mpr hrejects)
    exact ⟨message, w'', hmessage, (bind_of_ok hx).trans hrun, hfaultless,
      hrecords.trans hrecords', htrail'.trans htrail⟩
  · exact wp_bind (wp_of_ok hx (h.admitted (hbreaker.not.mpr hadmits)))

theorem draw (value : ℕ → α) (h : GoesThrough env (k (value w.supply)) w.drawn) :
    GoesThrough env (Ambit.draw value >>= k) w :=
  after rfl Iff.rfl ⟨rfl, rfl, rfl⟩ rfl h

theorem throwIf {c : Prop} [Decidable c] {err : Err} {k : Unit → Op β} (hc : ¬ c)
    (h : GoesThrough env (k ()) w) : GoesThrough env (Effect.throwIf c err >>= k) w :=
  after (a := ()) (by rw [Effect.throwIf, if_neg hc]; rfl) Iff.rfl ⟨rfl, rfl, rfl⟩ rfl h

theorem pure {a : α} (h : GoesThrough env (k a) w) : GoesThrough env (Pure.pure a >>= k) w :=
  after rfl Iff.rfl ⟨rfl, rfl, rfl⟩ rfl h

end GoesThrough

/-! ## Issuance -/

/-- The issuance looks at the policy or at the parent. -/
structure TokenRequest.AsksStore (request : TokenRequest) : Prop where
  scope : request.scope ≠ []
  ttl : ¬ request.ttlSeconds.le (.finite 0) = true
  refers : truthy request.policyId ≠ none ∨ truthy request.parentTokenId ≠ none

theorem issueToken_calmly {request : TokenRequest} {hasPolicyStore : Bool}
    (hasks : ¬ request.AsksStore) : Calmly B (issueToken env request hasPolicyStore) := by
  refine Keeps.throwIf_bind (fun _ => Err.noConfusion) fun hscope =>
    Keeps.throwIf_bind (fun _ => Err.noConfusion) fun httl => ?_
  have hpolicy : truthy request.policyId = none :=
    of_not_not fun h => hasks ⟨hscope, httl, .inl h⟩
  have hparent : truthy request.parentTokenId = none :=
    of_not_not fun h => hasks ⟨hscope, httl, .inr h⟩
  rw [hpolicy, hparent]
  exact Keeps.bind Keeps.pure fun _ => Keeps.bind calmly_now fun _ => Keeps.bind Keeps.pure fun _ =>
    Keeps.bind (calmly_draw _) fun _ => Keeps.bind (calmly_draw _) fun _ => Keeps.pure

theorem checkPolicy_goesThrough {request : TokenRequest} {policyId : String} {hasPolicyStore : Bool}
    (h : w.Faultless) (hstore : hasPolicyStore = true) :
    GoesThrough env (checkPolicy env request policyId hasPolicyStore) w := by
  refine .throwIf (by simp [hstore]) (.bind (PolicyStore.get_goesThrough h policyId) fun found => ?_)
  cases found with
  | none => exact Keeps.throw fun _ => Err.noConfusion
  | some policy =>
    exact Keeps.bind (Keeps.throwIf fun _ => Err.noConfusion) fun _ =>
      Keeps.throwIf fun _ => Err.noConfusion

theorem issueToken_goesThrough {request : TokenRequest} {hasPolicyStore : Bool} (h : w.Faultless)
    (hasks : request.AsksStore) (hstore : truthy request.policyId ≠ none → hasPolicyStore = true) :
    GoesThrough env (issueToken env request hasPolicyStore) w := by
  obtain ⟨hscope, httl, hrefers⟩ := hasks
  have hissue : ∀ (issuedAt : Int) (parent : Option Token), Calmly CircuitBreaker.Flowing (do
      let expiresAt := capExpiry (requestedExpiry issuedAt request.ttlSeconds) parent
      let secret ← draw env.randomSecret
      let salt ← draw env.randomSalt
      return { request, issuedAt, expiresAt, secret, salt } : Op IssueFrame) := fun _ _ =>
    Keeps.bind (calmly_draw _) fun _ => Keeps.bind (calmly_draw _) fun _ => Keeps.pure
  refine .throwIf hscope (.throwIf httl ?_)
  cases hpolicyId : truthy request.policyId with
  | some policyId =>
    refine .bind (checkPolicy_goesThrough h (hstore ?_)) fun _ => ?_
    · rw [hpolicyId]
      exact Option.some_ne_none policyId
    · refine Keeps.bind calmly_now fun issuedAt => Keeps.bind ?_ (hissue issuedAt)
      cases truthy request.parentTokenId with
      | some parentTokenId => exact calmly_tokenStore_get parentTokenId
      | none => exact Keeps.pure
  | none =>
    refine .pure (.after (a := w.clock) rfl Iff.rfl ⟨rfl, rfl, rfl⟩ rfl ?_)
    cases hparentId : truthy request.parentTokenId with
    | some parentTokenId => exact .bind (TokenStore.get_goesThrough h parentTokenId) (hissue w.clock)
    | none => exact (hrefers.elim (· hpolicyId) (· hparentId)).elim

theorem IssueFrame.resume_goesThrough (h : w.Faultless) (frame : IssueFrame) :
    GoesThrough env (frame.resume env) w := by
  refine .draw env.randomUUID (.bind (TokenStore.save_goesThrough ?_ _) fun _ => Keeps.pure)
  exact h

/-! ## What catches a rejection -/

/-- The entry about an approval that failed. -/
def approvalDenial (input : ApprovalInput) (pending : PendingRequest) (message : String) :
    AuditEntryInput :=
  { requestId := some input.requestId, subject := pending.subject, action := "approve_request",
    decision := .requestDenied, actor := some input.approver, reasonCode := some message }

section
variable {x : Op α} {input : ApprovalInput} {pending : PendingRequest}

/-- A rejection that an approval catches is logged, and thrown on. -/
theorem wp_catchApprovalFailure_rejected (hx : GoesThrough env x w) (hrejects : w.Rejects env) :
    wp (catchApprovalFailure env input pending x) (fun r w' => ∃ message,
      r = .error (.circuitOpen message) ∧ w.SameRecords w' ∧
        w'.trail = w.trail ++ [approvalDenial input pending message]) w := by
  obtain ⟨message, w', hmessage, hrun, hfaultless, hrecords, htrail⟩ := hx.rejected hrejects
  have hreason : (approvalDenial input pending message).lacksReason = false := by
    simp [AuditEntryInput.lacksReason, approvalDenial, hmessage]
  refine wp_bind (wp_attempt ?_)
  refine wp_of_error hrun (wp_bind (Faultless.wp_auditRecord hfaultless hreason
    (wp_throw ⟨message, rfl, ?_, ?_⟩)))
  · exact ⟨hrecords.tokens, hrecords.policies, hrecords.requests⟩
  · rw [← htrail]
    exact World.trail_logged hreason rfl _

theorem wp_catchApprovalFailure_calmly (hx : wp x (Kept (World.With B) Err.Calm) w) :
    wp (catchApprovalFailure env input pending x) (Kept (World.With B) Err.Calm) w := by
  refine wp_attempt_keeps hx (fun _ => Keeps.pure) fun err herr => ?_
  refine Keeps.bind ?_ fun _ => Keeps.throw herr
  cases err.approvalFailure with
  | some message => exact calmly_auditRecord _ _
  | none => exact Keeps.pure

end

section
variable {x : Op α} {input : DelegationInput}
  {k : α → Op (Progress DelegateFrame DelegationDecision)}

/-- A rejection that a delegation catches is a denial. -/
theorem wp_catchCircuitOpen_rejected (hx : GoesThrough env x w) (hrejects : w.Rejects env) :
    wp (do catchCircuitOpen env input (← attempt x) k) (fun r w' =>
      r = .ok (.returned (.denied .storeUnavailable)) ∧ w.SameRecords w') w := by
  obtain ⟨message, w', -, hrun, hfaultless, hrecords, -⟩ := hx.rejected hrejects
  refine wp_bind (wp_attempt ?_)
  refine wp_of_error hrun (wp_bind (wp_bind (Faultless.wp_auditRecord hfaultless ?_
    (wp_pure (wp_pure ⟨rfl, ?_⟩)))))
  · simp [AuditEntryInput.lacksReason, DelegationDenialReason.not_blank]
  · exact ⟨hrecords.tokens, hrecords.policies, hrecords.requests⟩

theorem wp_catchCircuitOpen_admitted
    {Q : Except Err (Progress DelegateFrame DelegationDecision) → World → Prop}
    (hx : wp x (Kept (World.With B) Err.Calm) w) (hk : ∀ a w', w'.With B → wp (k a) Q w')
    (herror : ∀ err w', err.Calm → w'.With B → Q (.error err) w') :
    wp (do catchCircuitOpen env input (← attempt x) k) Q w := by
  refine wp_bind (wp_attempt (wp_mono hx fun r w' hr => ?_))
  cases r with
  | ok a => exact hk a w' hr.state
  | error err =>
    have hcalm : err.Calm := hr.error err rfl
    cases err with
    | circuitOpen message => exact absurd rfl (hcalm message)
    | _ => exact wp_throw (herror _ w' hcalm hr.state)

end

end Ambit
