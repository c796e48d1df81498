import Ambit.GatewayTrail
import Ambit.GuardedStores
import Ambit.RevocationEffect
import Ambit.Untouched

/-! Failing closed: what becomes of a call when the circuit breaker turns one of its accesses away,
wherever in a run, and at whichever of the call's awaits, the outage begins. -/

namespace Ambit

open Effect

variable {env : Env} {w : World} {α β : Type}

/-! ## Outcomes that tell of an outage -/

def EnforcementDecision.Unavailable : EnforcementDecision → Prop
  | .denied .storeUnavailable _ => True
  | _ => False

def DelegationDecision.Unavailable : DelegationDecision → Prop
  | .denied .storeUnavailable => True
  | _ => False

def AccessResult.Unavailable : AccessResult → Prop
  | .denied .storeUnavailable => True
  | _ => False

def CustomerDataAccessResult.Unavailable : CustomerDataAccessResult → Prop
  | .denied (.gateway .storeUnavailable) _ => True
  | _ => False

/-- The outcome says that the store could not be reached. -/
def Outcome.Unavailable : Outcome → Prop
  | .failed (.circuitOpen _) => True
  | .enforcement decision => decision.Unavailable
  | .delegation decision => decision.Unavailable
  | .access result => result.Unavailable
  | .customer result => result.Unavailable
  | _ => False

theorem Err.Calm.available {err : Err} (h : err.Calm) : ¬ (Outcome.failed err).Unavailable := by
  cases err with
  | circuitOpen message => exact absurd rfl (h message)
  | _ => exact id

/-- The decision of the gateway about a token that was read. -/
def EnforceFrame.decision (env : Env) (frame : EnforceFrame) : EnforcementDecision :=
  if !frame.possessed env then .denied .invalidCredential (invalidCredentialMessage frame.tokenId)
  else decide env frame.token frame.action frame.now

theorem EnforceFrame.decision_available (frame : EnforceFrame) :
    ¬ (frame.decision env).Unavailable := by
  unfold EnforceFrame.decision decide
  repeat' split
  all_goals exact id

theorem delegationDenial_available {input : DelegationInput} {parent : Token}
    {reasonCode : DelegationDenialReason} (h : delegationDenial env input parent = some reasonCode) :
    ¬ (DelegationDecision.denied reasonCode).Unavailable := by
  cases reasonCode with
  | storeUnavailable =>
    unfold delegationDenial at h
    repeat' split at h
    all_goals cases h
  | _ => exact id

/-- The gateway from its await on: its decision, and an entry in the log. -/
theorem EnforceFrame.wp_resume_decision (frame : EnforceFrame) (h : w.Faultless) :
    wp (frame.resume env) (fun r w' => r = .ok (frame.decision env) ∧
      ∃ entry, w' = w.logged env entry frame.now) w := by
  have hdeny : ∀ (tokenId : String) (reasonCode : EnforcementDenialReason) (message : String),
      wp (denyEnforcement env tokenId frame.token.subject frame.action frame.now reasonCode message)
        (fun r w' => r = .ok (.denied reasonCode message) ∧
          ∃ entry, w' = w.logged env entry frame.now) w := by
    intro tokenId reasonCode message
    have hreason := EnforcementDecision.entry_lacksReason tokenId frame.token.subject frame.action
      (.denied reasonCode message)
    exact wp_bind (Faultless.wp_auditRecord h hreason (wp_pure ⟨rfl, _, rfl⟩))
  unfold EnforceFrame.decision
  cases hpossessed : frame.possessed env with
  | false =>
    simp only [EnforceFrame.resume, hpossessed]
    exact hdeny _ _ _
  | true =>
    simp only [EnforceFrame.resume, hpossessed]
    cases decide env frame.token frame.action frame.now with
    | allowed => exact wp_bind (Faultless.wp_auditRecord h rfl (wp_pure ⟨rfl, _, rfl⟩))
    | denied reasonCode message => exact hdeny _ _ _

/-! ## Pieces of calls -/

instance : SmallEffects World.SameRecords where
  refl _ := ⟨rfl, rfl, rfl⟩
  trans _ _ _ := World.SameRecords.trans
  logged _ _ _ _ _ := ⟨rfl, rfl, rfl⟩
  breaker _ _ := ⟨rfl, rfl, rfl⟩
  anomaly _ _ := ⟨rfl, rfl, rfl⟩
  endpoints _ _ := ⟨rfl, rfl, rfl⟩

/-- What becomes of a call that the breaker turns away: the records are what they were, the gateway
and a delegation deny, an approval throws and logs one denial, and the calls that would have changed
a record throw and log nothing. -/
def Call.TurnedAway (call : Call) (w : World) (o : Outcome) (w' : World) : Prop :=
  w.SameRecords w' ∧
    match call with
    | .enforceToken tokenId _ _ _ =>
      o = .enforcement (.denied .storeUnavailable (storeUnavailableMessage tokenId))
    | .delegateToken _ => o = .delegation (.denied .storeUnavailable)
    | .approveRequest input => ∃ message pending, o = .failed (.circuitOpen message) ∧
        w'.trail = w.trail ++ [approvalDenial input pending message]
    | .createPolicy _ _ _ | .modifyPolicy _ _ _ _ | .revokeToken _ _ _ _ =>
      (∃ message, o = .failed (.circuitOpen message)) ∧ w'.trail = w.trail
    | _ => o.Unavailable

/-- An error that the loop of an access will throw again is no rejection. -/
def Frame.Calm : Frame → Prop
  | .access (.sleeping _ lastError) => lastError.Calm
  | _ => True

/-- The end of a piece of a call: the breaker is in one of the states, and nothing tells of an
outage. -/
structure Unhindered (B : CircuitBreaker → Prop) (r : Except Err (Progress Frame Outcome))
    (w' : World) : Prop where
  breaker : B w'.storeCircuitBreaker
  available : ∀ o ∈ outcomeOf r, ¬ o.Unavailable
  frames : ∀ frame, r = .ok (.awaiting frame) → frame.Calm

/-- The breaker counts as many failures as it did. -/
abbrev CircuitBreaker.CountsAs (b b' : CircuitBreaker) : Prop :=
  b'.consecutiveFailures = b.consecutiveFailures

/-- How a piece of a call goes, by whether it asks a guarded store for something. -/
inductive Gated (env : Env) (w : World) (call : Call) (asks : Prop)
    (r : Except Err (Progress Frame Outcome)) (w' : World) : Prop
  | aside (hasks : ¬ asks) (h : Unhindered w.storeCircuitBreaker.CountsAs r w')
  | admitted (hasks : asks) (hadmits : ¬ w.Rejects env) (h : Unhindered CircuitBreaker.Flowing r w')
  | turnedAway (hasks : asks) (hrejects : w.Rejects env) (o : Outcome) (ho : outcomeOf r = some o)
      (h : call.TurnedAway w o w')

variable {call : Call} {asks : Prop} {B : CircuitBreaker → Prop} {w' : World}

theorem unhindered_returned {o : Outcome} (hbreaker : B w'.storeCircuitBreaker)
    (ho : ¬ o.Unavailable) : Unhindered B (.ok (.returned o)) w' := by
  refine ⟨hbreaker, ?_, fun _ h => by cases h⟩
  rintro _ ⟨⟩
  exact ho

theorem unhindered_awaiting {frame : Frame} (hbreaker : B w'.storeCircuitBreaker)
    (hframe : frame.Calm) : Unhindered B (.ok (.awaiting frame)) w' := by
  refine ⟨hbreaker, (fun _ h => by cases h), ?_⟩
  rintro _ ⟨⟩
  exact hframe

theorem unhindered_error {err : Err} (hbreaker : B w'.storeCircuitBreaker) (herr : err.Calm) :
    Unhindered B (.error err) w' := by
  refine ⟨hbreaker, ?_, fun _ h => by cases h⟩
  rintro _ ⟨⟩
  exact herr.available

section
variable {x : Op α} {outcome : α → Outcome}

theorem wp_synchronously_unhindered (hx : wp x (Kept (World.With B) Err.Calm) w)
    (houtcome : ∀ a, ¬ (outcome a).Unavailable) :
    wp (synchronously x outcome) (Unhindered B) w := by
  refine wp_bind (wp_mono hx fun r w' ⟨⟨_, hB⟩, hcalm⟩ => ?_)
  cases r with
  | ok a => exact wp_pure (unhindered_returned hB (houtcome a))
  | error err => exact unhindered_error hB (hcalm err rfl)

/-- A call that goes nowhere near the guarded stores. -/
theorem gated_of_calmly (houtcome : ∀ a, ¬ (outcome a).Unavailable) (h : w.Faultless)
    (hasks : ¬ asks)
    (hx : Calmly w.storeCircuitBreaker.CountsAs x) :
    wp (synchronously x outcome) (Gated env w call asks) w :=
  wp_mono (wp_synchronously_unhindered (hx w ⟨h, rfl⟩) houtcome) fun _ _ => .aside hasks

/-- A call that starts with an access, or with checks before it. -/
theorem gated_of_goesThrough (houtcome : ∀ a, ¬ (outcome a).Unavailable) (hx : GoesThrough env x w)
    (hasks : asks)
    (hturned : ∀ message w', w.SameRecords w' → w'.trail = w.trail →
      call.TurnedAway w (.failed (.circuitOpen message)) w') :
    wp (synchronously x outcome) (Gated env w call asks) w := by
  by_cases hrejects : w.Rejects env
  · obtain ⟨message, w', -, hrun, -, hrecords, htrail⟩ := hx.rejected hrejects
    refine wp_bind ?_
    exact wp_of_error hrun (.turnedAway hasks hrejects _ rfl (hturned message w' hrecords htrail))
  · exact wp_mono (wp_synchronously_unhindered (hx.admitted hrejects) houtcome) fun _ _ =>
      .admitted hasks hrejects

end

/-! ## The starts of the calls -/

/-- The values of a new policy pass their checks. -/
structure PolicyInput.Passes (input : PolicyInput) : Prop where
  name : ¬ isBlank input.name = true
  allowedScope : input.allowedScope ≠ []
  maxTtlSeconds : ¬ input.maxTtlSeconds.le (.finite 0) = true

/-- The start of the call makes an access to a guarded store. -/
def Call.AsksStore (w : World) : Call → Prop
  | .approveRequest input => ∃ pending, w.requestStore.live.get input.requestId = some pending ∧
      pending.status = .pending ∧ pending.eligible input.approver ∧
      (pending.tokenRequest input.policyId).AsksStore
  | .createPolicy input _ _ => input.Passes
  | .delegateToken _ | .enforceToken _ _ _ _ | .accessMockEndpoint _ | .accessCustomerData _ |
    .revokeToken _ _ _ _ | .getTokenLineage _ | .modifyPolicy _ _ _ _ => True
  | _ => False

theorem createPolicy_gated (h : w.Faultless) (input : PolicyInput) (authoredBy : String) (now : Int) :
    wp (startCall env (.createPolicy input authoredBy now))
      (Gated env w (.createPolicy input authoredBy now) input.Passes) w := by
  by_cases hpasses : input.Passes
  · have hdrawn : w.drawn.Faultless := h
    have hsave : ∀ policy, GoesThrough env (do
        PolicyStore.save env policy
        auditRecord env
          { policyId := some policy.id, subject := authoredBy, action := "create_policy",
            decision := .policyCreated } now
        return policy) w.drawn := fun policy =>
      .bind (PolicyStore.save_goesThrough hdrawn policy) fun _ =>
        Keeps.bind (calmly_auditRecord _ _) fun _ => Keeps.pure
    have hcreate : GoesThrough env (createPolicy env input authoredBy now) w := by
      have hvalid : input.validate w = .ok () w := by
        simp only [PolicyInput.validate, throwIf, if_neg hpasses.name, if_neg hpasses.allowedScope,
          if_neg hpasses.maxTtlSeconds]
        rfl
      exact .after hvalid Iff.rfl ⟨rfl, rfl, rfl⟩ rfl (.draw env.randomUUID (hsave _))
    exact gated_of_goesThrough (fun _ => id) hcreate hpasses fun message w' hrecords htrail =>
      ⟨hrecords, ⟨message, rfl⟩, htrail⟩
  · refine gated_of_calmly (fun _ => id) h hpasses ?_
    have hblocked : ∀ {B : CircuitBreaker → Prop} {k : Unit → Op Policy},
        Calmly B (do k (← input.validate)) := by
      intro B k
      simp only [PolicyInput.validate, bind_assoc]
      refine Keeps.throwIf_bind (fun _ => Err.noConfusion) fun hname => ?_
      refine Keeps.throwIf_bind (fun _ => Err.noConfusion) fun hscope => ?_
      refine Keeps.throwIf_bind (fun _ => Err.noConfusion) fun httl => ?_
      exact absurd ⟨hname, hscope, httl⟩ hpasses
    exact hblocked

theorem modifyPolicy_gated (h : w.Faultless) (policyId : String) (changes : PolicyChanges)
    (authoredBy : String) (now : Int) :
    wp (startCall env (.modifyPolicy policyId changes authoredBy now))
      (Gated env w (.modifyPolicy policyId changes authoredBy now) True) w := by
  have hmodify : GoesThrough env (modifyPolicy env policyId changes authoredBy now) w := by
    refine .bind (PolicyStore.get_goesThrough h policyId) fun found => ?_
    cases found with
    | none => exact Keeps.throw fun _ => Err.noConfusion
    | some existing =>
      have hvalidate : ∀ input : PolicyInput, Calmly CircuitBreaker.Flowing input.validate := fun _ =>
        Keeps.bind (Keeps.throwIf fun _ => Err.noConfusion) fun _ =>
          Keeps.bind (Keeps.throwIf fun _ => Err.noConfusion) fun _ =>
            Keeps.throwIf fun _ => Err.noConfusion
      exact Keeps.bind (hvalidate _) fun _ => Keeps.bind (calmly_policyStore_save _) fun _ =>
        Keeps.bind (calmly_auditRecord _ _) fun _ => Keeps.pure
  exact gated_of_goesThrough (fun _ => id) hmodify trivial fun message w' hrecords htrail =>
    ⟨hrecords, ⟨message, rfl⟩, htrail⟩

theorem revokeToken_gated (h : w.Faultless) (tokenId : String) (reasonCode : RevocationReason)
    (now : Int) (actor : Option String) :
    wp (startCall env (.revokeToken tokenId reasonCode now actor))
      (Gated env w (.revokeToken tokenId reasonCode now actor) True) w := by
  have hrevoke : GoesThrough env (revokeToken env tokenId reasonCode now actor) w := by
    refine .bind (TokenStore.get_goesThrough h tokenId) fun found => ?_
    cases found with
    | none => exact Keeps.throw fun _ => Err.noConfusion
    | some token =>
      exact Keeps.bind (calmly_tokenStore_save _) fun _ => Keeps.bind (calmly_auditRecord _ _) fun _ =>
        Keeps.bind (Keeps.bind Keeps.get fun _ => calmly_cascadeRevokeAux _ _ _ _) fun _ => Keeps.pure
  exact gated_of_goesThrough (fun _ => id) hrevoke trivial fun message w' hrecords htrail =>
    ⟨hrecords, ⟨message, rfl⟩, htrail⟩

theorem getTokenLineage_gated (h : w.Faultless) (tokenId : String) :
    wp (startCall env (.getTokenLineage tokenId)) (Gated env w (.getTokenLineage tokenId) True) w := by
  refine wp_bind (wp_get ?_)
  have hlineage : ∀ fuel, GoesThrough env (getTokenLineage env fuel tokenId) w := by
    intro fuel
    refine .bind (TokenStore.get_goesThrough h tokenId) fun found => ?_
    cases found with
    | none => exact Keeps.throw fun _ => Err.noConfusion
    | some target =>
      refine Keeps.bind (calmly_lineageChain fuel target [target]) fun chain => ?_
      cases chain with
      | none => exact Keeps.pure
      | some chain => exact Keeps.bind Keeps.get fun _ => Keeps.pure
  exact gated_of_goesThrough (fun _ => id) (hlineage _) trivial fun message w' hrecords _ =>
    ⟨hrecords, trivial⟩

section
variable {tokenId secret action : String} {now : Int}

theorem wp_enforceToken_rejected (h : w.Faultless) (hrejects : w.Rejects env) :
    wp (enforceToken env tokenId secret action now) (fun r _ =>
      r = .ok (.returned (.denied .storeUnavailable (storeUnavailableMessage tokenId)))) w := by
  obtain ⟨message, w', -, hrun, hfaultless, -⟩ := (TokenStore.get_goesThrough h tokenId).rejected hrejects
  refine wp_bind (wp_attempt ?_)
  refine wp_of_error hrun (wp_bind (wp_mono (wp_denyEnforcement hfaultless) ?_))
  rintro _ _ ⟨rfl, -⟩
  exact wp_pure rfl

theorem wp_enforceToken_admitted (h : w.Faultless) (hadmits : ¬ w.Rejects env) :
    wp (enforceToken env tokenId secret action now) (fun r w' => w'.storeCircuitBreaker.Flowing ∧
      ((∃ frame, r = .ok (.awaiting frame)) ∨
        ∃ message, r = .ok (.returned (.denied .unknownToken message)))) w := by
  have hflow := World.flowing_iff.mp (World.flowing_accessed hadmits)
  refine wp_bind (wp_attempt (Faultless.tokenStore_get h (fun hrej => absurd hrej hadmits) fun _ => ?_))
  cases w.tokenStore.live.get tokenId with
  | some token => exact wp_pure ⟨hflow, .inl ⟨_, rfl⟩⟩
  | none =>
    refine wp_bind (wp_mono (wp_denyEnforcement h.accessed) ?_)
    rintro _ _ ⟨rfl, hdecided⟩
    refine wp_pure ⟨?_, .inr ⟨_, rfl⟩⟩
    rw [hdecided.breaker_eq]
    exact hflow

/-- A call that starts in the gateway, and ends there if the gateway denies. -/
theorem gated_of_enforceToken {next : Progress EnforceFrame EnforcementDecision →
      Op (Progress Frame Outcome)} {denial : EnforcementDenialReason → String → Outcome}
    (h : w.Faultless)
    (hawaits : ∀ frame, ∃ frame', next (.awaiting frame) = pure (.awaiting frame') ∧ frame'.Calm)
    (hdenied : ∀ reasonCode message,
      next (.returned (.denied reasonCode message)) = pure (.returned (denial reasonCode message)))
    (hsame : Along World.SameRecords (enforceToken env tokenId secret action now >>= next))
    (havailable : ∀ message, ¬ (denial .unknownToken message).Unavailable)
    (hturned : ∀ w', w.SameRecords w' →
      call.TurnedAway w (denial .storeUnavailable (storeUnavailableMessage tokenId)) w') :
    wp (enforceToken env tokenId secret action now >>= next) (Gated env w call True) w := by
  by_cases hrejects : w.Rejects env
  · have hdenial : wp (enforceToken env tokenId secret action now >>= next) (fun r _ =>
        r = .ok (.returned (denial .storeUnavailable (storeUnavailableMessage tokenId)))) w := by
      refine wp_bind (wp_mono (wp_enforceToken_rejected h hrejects) ?_)
      rintro _ _ rfl
      dsimp only
      rw [hdenied]
      exact wp_pure rfl
    refine wp_mono (wp_and hdenial (hsame.wp w)) ?_
    rintro _ w' ⟨rfl, hrecords⟩
    exact .turnedAway trivial hrejects _ rfl (hturned w' hrecords)
  · refine wp_bind (wp_mono (wp_enforceToken_admitted h hrejects) ?_)
    rintro _ w' ⟨hflows, ⟨frame, rfl⟩ | ⟨message, rfl⟩⟩
    · obtain ⟨frame', hframe', hcalm⟩ := hawaits frame
      dsimp only
      rw [hframe']
      exact wp_pure (.admitted trivial hrejects (unhindered_awaiting hflows hcalm))
    · dsimp only
      rw [hdenied]
      exact wp_pure (.admitted trivial hrejects (unhindered_returned hflows (havailable message)))

theorem enforceToken_gated (h : w.Faultless) :
    wp (startCall env (.enforceToken tokenId secret action now))
      (Gated env w (.enforceToken tokenId secret action now) True) w := by
  refine gated_of_enforceToken h (fun frame => ⟨_, rfl, trivial⟩) (fun _ _ => rfl) ?_
    (fun _ => id) fun _ hrecords => ⟨hrecords, rfl⟩
  exact along_map (along_enforceToken _ _ _ _) _ _

end

theorem accessMockEndpoint_gated (h : w.Faultless) (input : AccessInput) :
    wp (startCall env (.accessMockEndpoint input)) (Gated env w (.accessMockEndpoint input) True) w := by
  have hsame : Along World.SameRecords (startCall env (.accessMockEndpoint input)) :=
    along_map (along_accessMockEndpoint input) _ _
  simp only [startCall, accessMockEndpoint, bind_assoc] at hsame ⊢
  exact gated_of_enforceToken h
    (fun frame => ⟨_, rfl, trivial⟩) (fun _ _ => rfl) hsame (fun _ => id) fun _ hrecords =>
      ⟨hrecords, trivial⟩

theorem accessCustomerData_gated (h : w.Faultless) (input : CustomerAccessInput) :
    wp (startCall env (.accessCustomerData input)) (Gated env w (.accessCustomerData input) True) w := by
  have hsame : Along World.SameRecords (startCall env (.accessCustomerData input)) :=
    along_map (along_accessCustomerData input) _ _
  simp only [startCall, accessCustomerData, bind_assoc] at hsame ⊢
  exact gated_of_enforceToken h (fun frame => ⟨_, rfl, trivial⟩)
    (fun _ _ => rfl) hsame (fun _ => id) fun _ hrecords => ⟨hrecords, trivial⟩

/-- How a piece of a delegation goes. -/
theorem gated_of_delegation {x : Op (Progress DelegateFrame DelegationDecision)}
    {input : DelegationInput} (hasks : asks)
    (hrejected : w.Rejects env → wp x (fun r w' =>
      r = .ok (.returned (.denied .storeUnavailable)) ∧ w.SameRecords w') w)
    (hadmitted : ¬ w.Rejects env → wp x (fun r w' =>
      Unhindered CircuitBreaker.Flowing (r.map (·.map .delegate .delegation)) w') w) :
    wp (do return (← x).map .delegate .delegation) (Gated env w (.delegateToken input) asks) w := by
  refine wp_mapped ?_
  by_cases hrejects : w.Rejects env
  · refine wp_mono (hrejected hrejects) ?_
    rintro _ w' ⟨rfl, hrecords⟩
    exact .turnedAway hasks hrejects _ rfl ⟨hrecords, rfl⟩
  · exact wp_mono (hadmitted hrejects) fun _ _ => .admitted hasks hrejects

theorem wp_denyDelegation_unhindered {input : DelegationInput} {reasonCode : DelegationDenialReason}
    (h : w.Faultless) (hbreaker : B w.storeCircuitBreaker)
    (havailable : ¬ (DelegationDecision.denied reasonCode).Unavailable) :
    wp (do return .returned (← denyDelegation env input reasonCode) :
      Op (Progress DelegateFrame DelegationDecision)) (fun r w' =>
        Unhindered B (r.map (·.map .delegate .delegation)) w') w := by
  have hreason : (delegationDenialEntry input reasonCode).lacksReason = false := by
    simp [delegationDenialEntry, AuditEntryInput.lacksReason, reasonCode.not_blank]
  refine wp_bind (wp_bind (Faultless.wp_auditRecord h hreason (wp_pure (wp_pure ?_))))
  exact unhindered_returned hbreaker havailable

theorem delegateToken_gated (h : w.Faultless) (input : DelegationInput) :
    wp (startCall env (.delegateToken input)) (Gated env w (.delegateToken input) True) w := by
  have hget : GoesThrough env (TokenStore.get env input.parentTokenId) w :=
    TokenStore.get_goesThrough h input.parentTokenId
  refine gated_of_delegation trivial (fun hrejects => ?_) fun hadmits => ?_
  · have hdenial : wp (delegateToken env input) (fun r _ =>
        r = .ok (.returned (.denied .storeUnavailable))) w := by
      obtain ⟨message, w', -, hrun, hfaultless, -⟩ := hget.rejected hrejects
      refine wp_bind (wp_attempt ?_)
      refine wp_of_error hrun (wp_bind (wp_bind (Faultless.wp_auditRecord hfaultless ?_
        (wp_pure (wp_pure rfl)))))
      simp [AuditEntryInput.lacksReason, DelegationDenialReason.not_blank]
    exact wp_and hdenial ((along_delegateToken input).wp w)
  · refine wp_bind (wp_attempt (wp_mono (hget.admitted hadmits) fun r w' hr => ?_))
    obtain ⟨⟨hfaultless, hflows⟩, hcalm⟩ := hr
    rcases r with err | _ | parent
    · have hcalm : err.Calm := hcalm err rfl
      cases err with
      | circuitOpen message => exact absurd rfl (hcalm message)
      | _ => exact wp_throw (unhindered_error hflows hcalm)
    · exact wp_denyDelegation_unhindered hfaultless hflows id
    · exact wp_pure (unhindered_awaiting hflows trivial)

/-- A call that goes on to an await of its own. -/
theorem wp_awaiting_unhindered {φ : Type} {x : Op φ} {onFrame : φ → Frame}
    (hx : wp x (Kept (World.With B) Err.Calm) w) (hframe : ∀ a, (onFrame a).Calm) :
    wp (do return .awaiting (onFrame (← x)) : Op (Progress Frame Outcome)) (Unhindered B) w := by
  refine wp_bind (wp_mono hx fun r w' ⟨⟨_, hB⟩, hcalm⟩ => ?_)
  cases r with
  | ok a => exact wp_pure (unhindered_awaiting hB (hframe a))
  | error err => exact unhindered_error hB (hcalm err rfl)

/-- An approval looks at the policy only if the request is stored, open, and the approver's. -/
theorem approveRequest_aside {input : ApprovalInput} (h : w.With B)
    (hasks : ¬ Call.AsksStore w (.approveRequest input)) :
    wp (approveRequest env input) (Kept (World.With B) Err.Calm) w := by
  refine wp_bind (wp_mono (wp_and (getPending_spec _ _) (calmly_getPending _ _ w h)) ?_)
  rintro r _ ⟨⟨rfl, hfound⟩, hkept⟩
  cases r with
  | error err => exact kept_error h (hkept.error err rfl)
  | ok pending =>
    obtain ⟨hpending, hstatus⟩ := hfound
    refine wp_bind (wp_ite (fun heligible => wp_pure ?_) fun _ => ?_)
    · have hissue : Calmly B (issueToken env (pending.tokenRequest input.policyId) true) :=
        issueToken_calmly fun hstore => hasks ⟨pending, hpending, hstatus, heligible, hstore⟩
      exact wp_bind_keeps (wp_catchApprovalFailure_calmly (hissue _ h)) fun _ => Keeps.pure
    · refine wp_bind (wp_mono (calmly_auditRecord _ _ _ h) fun r w' hr => ?_)
      cases r with
      | error err => exact kept_error hr.state (hr.error err rfl)
      | ok => exact wp_throw (kept_error hr.state fun _ => Err.noConfusion)

theorem approveRequest_gated (h : w.Faultless) (input : ApprovalInput) :
    wp (startCall env (.approveRequest input))
      (Gated env w (.approveRequest input) (Call.AsksStore w (.approveRequest input))) w := by
  by_cases hasks : Call.AsksStore w (.approveRequest input)
  · obtain ⟨pending, hpending, hstatus, heligible, hstore⟩ := id hasks
    have hissue : GoesThrough env (issueToken env (pending.tokenRequest input.policyId) true) w :=
      issueToken_goesThrough h hstore fun _ => rfl
    by_cases hrejects : w.Rejects env
    · refine wp_bind (wp_bind (wp_getPending hpending hstatus (wp_bind (wp_ite (fun _ => wp_pure ?_)
        fun hineligible => absurd heligible hineligible))))
      refine wp_bind (wp_mono (wp_catchApprovalFailure_rejected hissue hrejects) ?_)
      rintro _ w' ⟨message, rfl, hrecords, htrail⟩
      exact .turnedAway hasks hrejects _ rfl ⟨hrecords, message, pending, rfl, htrail⟩
    · have happrove : wp (approveRequest env input)
          (Kept (World.With CircuitBreaker.Flowing) Err.Calm) w := by
        refine wp_bind (wp_getPending hpending hstatus (wp_bind (wp_ite (fun _ => wp_pure ?_)
          fun hineligible => absurd heligible hineligible)))
        exact wp_bind_keeps (wp_catchApprovalFailure_calmly (hissue.admitted hrejects)) fun _ =>
          Keeps.pure
      exact wp_mono (wp_awaiting_unhindered happrove fun _ => trivial) fun _ _ =>
        .admitted hasks hrejects
  · have happrove : wp (approveRequest env input)
        (Kept (World.With w.storeCircuitBreaker.CountsAs) Err.Calm) w :=
      approveRequest_aside ⟨h, rfl⟩ hasks
    exact wp_mono (wp_awaiting_unhindered happrove fun _ => trivial) fun _ _ => .aside hasks

/-- **The start of a call.** -/
theorem startCall_gated (h : w.Faultless) (call : Call) :
    wp (startCall env call) (Gated env w call (call.AsksStore w)) w := by
  cases call with
  | approveRequest input => exact approveRequest_gated h input
  | delegateToken input => exact delegateToken_gated h input
  | enforceToken => exact enforceToken_gated h
  | accessMockEndpoint input => exact accessMockEndpoint_gated h input
  | accessCustomerData input => exact accessCustomerData_gated h input
  | revokeToken => exact revokeToken_gated h _ _ _ _
  | getTokenLineage => exact getTokenLineage_gated h _
  | createPolicy => exact createPolicy_gated h _ _ _
  | modifyPolicy => exact modifyPolicy_gated h _ _ _ _
  | requestToken => exact gated_of_calmly (fun _ => id) h id (calmly_requestToken _ _ _)
  | denyRequest => exact gated_of_calmly (fun _ => id) h id (calmly_denyRequest _ _ _ _)
  | checkRequestTimeout => exact gated_of_calmly (fun _ => id) h id (calmly_checkRequestTimeout _ _ _ _)
  | claimTokenSecret => exact gated_of_calmly (fun _ => id) h id (calmly_claimTokenSecret _ _ _)
  | createRedactionRule => exact gated_of_calmly (fun _ => id) h id (calmly_createRedactionRule _ _ _)
  | recordLogin => exact gated_of_calmly (fun _ => id) h id (calmly_recordLogin _ _ _)
  | recordOutageToggle => exact gated_of_calmly (fun _ => id) h id (calmly_auditRecord _ _)
  | setDown => exact gated_of_calmly (fun _ => id) h id (calmly_setDown _ _)
  | simulateOutage down =>
    exact gated_of_calmly (fun _ => id) h id (Keeps.modify fun _ ⟨hfaultless, hcount⟩ =>
      ⟨hfaultless, hcount⟩)
  | registerAgentIdentity subject createdBy now =>
    have hregister : Calmly w.storeCircuitBreaker.CountsAs
        (registerAgentIdentity env subject createdBy now) := calmly_registerAgentIdentity _ _ _
    exact wp_mono (wp_awaiting_unhindered (hregister w ⟨h, rfl⟩) fun _ => trivial) fun _ _ => .aside id
  | authenticateAgent credential =>
    have hauthenticate : Calmly w.storeCircuitBreaker.CountsAs (authenticateAgent credential) :=
      calmly_authenticateAgent credential
    refine wp_bind (wp_mono (hauthenticate w ⟨h, rfl⟩) fun r w' ⟨⟨_, hcount⟩, hcalm⟩ => ?_)
    rcases r with err | ⟨identity⟩ | frame
    · exact .aside id (unhindered_error hcount (hcalm err rfl))
    · exact wp_pure (.aside id (unhindered_returned hcount id))
    · exact wp_pure (.aside id (unhindered_awaiting hcount trivial))

/-! ## The later pieces -/

section
variable {input : DelegationInput} {parent : Token}

theorem verifying_gated (h : w.Faultless) (downstream : Downstream) (call : DelegationInput) :
    wp (resumeFrame env downstream (.delegate (.verifying input parent)))
      (Gated env w (.delegateToken call)
        (delegationDenial env input parent = none ∧ input.tokenRequest.AsksStore)) w := by
  simp only [resumeFrame, DelegateFrame.resume]
  cases hdenial : delegationDenial env input parent with
  | some reasonCode =>
    refine wp_mapped (wp_mono (wp_denyDelegation_unhindered (B := w.storeCircuitBreaker.CountsAs) h rfl
      (delegationDenial_available hdenial)) fun _ _ => .aside fun hasks => ?_)
    cases hasks.1
  | none =>
    have hissued : ∀ {B : CircuitBreaker → Prop},
        wp (issueToken env input.tokenRequest false) (Kept (World.With B) Err.Calm) w →
        wp (do
          let issue ← attempt (issueToken env input.tokenRequest false)
          catchCircuitOpen env input issue fun issue => return .awaiting (.issuing input issue))
          (fun r w' => Unhindered B (r.map (·.map .delegate .delegation)) w') w := fun hissue =>
      wp_catchCircuitOpen_admitted hissue
        (fun _ _ hw' => wp_pure (unhindered_awaiting hw'.2 trivial))
        fun _ _ hcalm hw' => unhindered_error hw'.2 hcalm
    by_cases hstore : input.tokenRequest.AsksStore
    · have hissue : GoesThrough env (issueToken env input.tokenRequest false) w :=
        issueToken_goesThrough h hstore fun hpolicy => absurd rfl hpolicy
      exact gated_of_delegation ⟨rfl, hstore⟩ (wp_catchCircuitOpen_rejected hissue)
        fun hadmits => hissued (hissue.admitted hadmits)
    · have hissue : Calmly w.storeCircuitBreaker.CountsAs
          (issueToken env input.tokenRequest false) := issueToken_calmly hstore
      exact wp_mapped (wp_mono (hissued (hissue w ⟨h, rfl⟩)) fun _ _ => .aside fun hasks =>
        hstore hasks.2)

theorem issuing_gated (h : w.Faultless) (downstream : Downstream) (call : DelegationInput)
    (issue : IssueFrame) :
    wp (resumeFrame env downstream (.delegate (.issuing input issue)))
      (Gated env w (.delegateToken call) True) w := by
  have hissue : GoesThrough env (issue.resume env) w := IssueFrame.resume_goesThrough h issue
  refine gated_of_delegation trivial (wp_catchCircuitOpen_rejected hissue) fun hadmits => ?_
  refine wp_catchCircuitOpen_admitted (hissue.admitted hadmits) (fun issued w' hw' => ?_)
    fun _ _ hcalm hw' => unhindered_error hw'.2 hcalm
  exact wp_bind (Faultless.wp_auditRecord hw'.1 rfl (wp_pure (unhindered_returned hw'.2 id)))

end

theorem approve_gated (h : w.Faultless) (downstream : Downstream) (frame : ApproveFrame) :
    wp (resumeFrame env downstream (.approve frame))
      (Gated env w (.approveRequest frame.input) True) w := by
  have hissue : GoesThrough env (frame.issue.resume env) w :=
    IssueFrame.resume_goesThrough h frame.issue
  by_cases hrejects : w.Rejects env
  · refine wp_bind (wp_bind (wp_mono (wp_catchApprovalFailure_rejected hissue hrejects) ?_))
    rintro _ w' ⟨message, rfl, hrecords, htrail⟩
    exact .turnedAway trivial hrejects _ rfl ⟨hrecords, message, frame.pending, rfl, htrail⟩
  · refine wp_mono (wp_synchronously_unhindered (B := CircuitBreaker.Flowing) ?_ fun _ => id)
      fun _ _ => .admitted trivial hrejects
    exact wp_bind_keeps (wp_catchApprovalFailure_calmly (hissue.admitted hrejects)) fun _ =>
      Keeps.bind (calmly_requestStore_save _) fun _ => Keeps.bind (calmly_auditRecord _ _) fun _ =>
        Keeps.pure

theorem enforce_gated (h : w.Faultless) (downstream : Downstream) (frame : EnforceFrame) :
    wp (resumeFrame env downstream (.enforce frame)) (Gated env w call False) w := by
  refine wp_bind (wp_mono (frame.wp_resume_decision h) ?_)
  rintro _ _ ⟨rfl, entry, rfl⟩
  exact wp_pure (.aside id (unhindered_returned rfl frame.decision_available))

/-! ### Behind the gateway -/

theorem EnforcementDecision.reason_available {reasonCode : EnforcementDenialReason} {message : String}
    (h : ¬ (EnforcementDecision.denied reasonCode message).Unavailable) :
    reasonCode ≠ .storeUnavailable := by
  rintro rfl
  exact h trivial

/-- What comes behind the gateway finds the state as it was, with one more entry in the log. -/
theorem gated_behind {enforce : EnforceFrame}
    {next : EnforcementDecision → Op (Progress Frame Outcome)} (h : w.Faultless)
    (hturned : ∀ entry o w', call.TurnedAway (w.logged env entry enforce.now) o w' →
      call.TurnedAway w o w')
    (hnext : ∀ w₁ : World, (∃ entry, w₁ = w.logged env entry enforce.now) → w₁.Faultless →
      wp (next (enforce.decision env)) (Gated env w₁ call asks) w₁) :
    wp (enforce.resume env >>= next) (Gated env w call asks) w := by
  refine wp_bind (wp_mono (enforce.wp_resume_decision h) ?_)
  rintro _ _ ⟨rfl, entry, rfl⟩
  refine wp_mono (hnext _ ⟨entry, rfl⟩ h) fun r w' hr => ?_
  cases hr with
  | aside hasks hr => exact .aside hasks hr
  | admitted hasks hadmits hr => exact .admitted hasks hadmits hr
  | turnedAway hasks hrejects o ho hr => exact .turnedAway hasks hrejects o ho (hturned entry o w' hr)

/-- Behind the gateway the token is read again. -/
theorem gated_of_get {tokenId : String} {k : Option Token → Op (Progress Frame Outcome)}
    (h : w.Faultless) (hasks : asks)
    (hturned : ∀ message w', w.SameRecords w' →
      call.TurnedAway w (.failed (.circuitOpen message)) w')
    (hk : ∀ found (w' : World), w'.With CircuitBreaker.Flowing →
      wp (k found) (Unhindered CircuitBreaker.Flowing) w') :
    wp (TokenStore.get env tokenId >>= k) (Gated env w call asks) w := by
  have hget : GoesThrough env (TokenStore.get env tokenId) w := TokenStore.get_goesThrough h tokenId
  by_cases hrejects : w.Rejects env
  · obtain ⟨message, w', -, hrun, -, hrecords, -⟩ := hget.rejected hrejects
    refine wp_bind ?_
    exact wp_of_error hrun (.turnedAway hasks hrejects _ rfl (hturned message w' hrecords))
  · refine wp_bind (wp_mono (hget.admitted hrejects) fun r w' hr => ?_)
    cases r with
    | ok found => exact wp_mono (hk found w' hr.state) fun _ _ => .admitted hasks hrejects
    | error err => exact .admitted hasks hrejects (unhindered_error hr.state.2 (hr.error err rfl))

/-! ### The loop of an access -/

/-- The end of a piece of an access. -/
def AccessUnhindered (B : CircuitBreaker → Prop) (r : Except Err (Progress AccessFrame AccessResult))
    (w' : World) : Prop :=
  Unhindered B (r.map (·.map .access .access)) w'

theorem AccessLoop.next_unhindered (loop : AccessLoop) {lastError : Err} (h : w.With B)
    (hcalm : lastError.Calm) : wp (loop.next env lastError) (AccessUnhindered B) w := by
  refine wp_ite (fun _ => wp_bind (wp_get (wp_pure (unhindered_awaiting h.2 trivial)))) fun _ => ?_
  cases lastError with
  | endpointUnreachable message =>
    exact wp_bind (Faultless.wp_auditRecord h.1 rfl (wp_pure (unhindered_returned h.2 id)))
  | _ => exact wp_throw (unhindered_error h.2 hcalm)

theorem AccessLoop.failed_unhindered (loop : AccessLoop) {err : Err} (h : w.With B)
    (hcalm : err.Calm) : wp (loop.failed env err) (AccessUnhindered B) w :=
  wp_ite (fun _ => wp_pure (unhindered_awaiting h.2 hcalm)) fun _ =>
    AccessLoop.next_unhindered _ h hcalm

theorem calling_unhindered (downstream : Downstream) (loop : AccessLoop) (accepted : Bool)
    (h : w.With B) : wp ((AccessFrame.calling loop accepted).resume env downstream)
      (AccessUnhindered B) w := by
  refine wp_ite (fun _ => wp_bind (wp_attempt ?_)) fun _ =>
    loop.failed_unhindered h fun _ => Err.noConfusion
  exact Faultless.wp_auditRecord h.1 rfl (wp_pure (unhindered_returned h.2 id))

theorem access_enforcing_gated (h : w.Faultless) (downstream : Downstream) (call input : AccessInput)
    (enforce : EnforceFrame) :
    wp (resumeFrame env downstream (.access (.enforcing input enforce)))
      (Gated env w (.accessMockEndpoint call) (enforce.decision env = .allowed)) w := by
  simp only [resumeFrame, AccessFrame.resume, bind_assoc]
  refine gated_behind h ?_ fun w₁ _ h₁ => ?_
  · rintro entry o w' ⟨⟨htokens, hpolicies, hrequests⟩, ho⟩
    exact ⟨⟨htokens, hpolicies, hrequests⟩, ho⟩
  · cases hdecision : enforce.decision env with
    | denied reasonCode message =>
      have havailable := EnforcementDecision.reason_available (hdecision ▸ enforce.decision_available)
      refine wp_pure (.aside EnforcementDecision.noConfusion (unhindered_returned rfl ?_))
      cases reasonCode with
      | storeUnavailable => exact absurd rfl havailable
      | _ => exact id
    | allowed =>
      simp only [accessAfter, bind_assoc]
      refine gated_of_get h₁ trivial (fun message w' hrecords => ⟨hrecords, trivial⟩) ?_
      exact fun found w' hw' => wp_mapped
        (AccessLoop.next_unhindered _ hw' fun _ => Err.noConfusion)

theorem access_looping_gated (h : w.Faultless) (downstream : Downstream) {frame : AccessFrame}
    (hframe : ∀ input enforce, frame ≠ .enforcing input enforce)
    (hcalm : Frame.Calm (.access frame)) :
    wp (resumeFrame env downstream (.access frame)) (Gated env w call False) w := by
  have haside : wp (frame.resume env downstream) (AccessUnhindered w.storeCircuitBreaker.CountsAs)
      w := by
    cases frame with
    | enforcing input enforce => exact absurd rfl (hframe input enforce)
    | calling loop accepted => exact calling_unhindered downstream loop accepted ⟨h, rfl⟩
    | sleeping loop lastError => exact AccessLoop.next_unhindered _ ⟨h, rfl⟩ hcalm
  exact wp_mapped (wp_mono haside fun _ _ => .aside id)

/-! ### Customer data -/

/-- The customer and the rule of an access to customer data are there. -/
def CustomerAccessInput.Resolves (env : Env) (w : World) (input : CustomerAccessInput) : Prop :=
  (∃ record, env.customerRegistry input.customerId = some record) ∧
    ∃ rule, w.redactionRuleStore.live.get input.redactionRuleId = some rule

theorem denyCustomerAccess_unhindered (env : Env) (input : CustomerAccessInput)
    (reasonCode : CustomerDenialReason) (message : String) (h : w.With B)
    (hreason : (input.denialEntry reasonCode message).lacksReason = false)
    (havailable : ¬ (CustomerDataAccessResult.denied reasonCode message).Unavailable) :
    wp (synchronously (denyCustomerAccess env input reasonCode message) .customer)
      (Unhindered B) w :=
  wp_bind (wp_bind (Faultless.wp_auditRecord h.1 hreason
    (wp_pure (wp_pure (unhindered_returned h.2 havailable)))))

/-- The rules are those of an earlier state. -/
theorem customerDataAfter_gated {w₀ : World} (h : w.Faultless) (call : CustomerAccessInput)
    {input : CustomerAccessInput} {decision : EnforcementDecision} (havailable : ¬ decision.Unavailable)
    (hrules : w.redactionRuleStore = w₀.redactionRuleStore) :
    wp (synchronously (customerDataAfter env input decision) .customer)
      (Gated env w (.accessCustomerData call) (decision = .allowed ∧ input.Resolves env w₀)) w := by
  cases decision with
  | denied reasonCode message =>
    refine wp_pure (.aside (fun hasks => EnforcementDecision.noConfusion hasks.1)
      (unhindered_returned rfl ?_))
    cases reasonCode with
    | storeUnavailable => exact absurd trivial havailable
    | _ => exact id
  | allowed =>
    have hwith : w.With w.storeCircuitBreaker.CountsAs := ⟨h, rfl⟩
    cases hcustomer : env.customerRegistry input.customerId with
    | none =>
      simp only [customerDataAfter, hcustomer]
      have hdenied := denyCustomerAccess_unhindered env input .unknownCustomer
        (unknownCustomerMessage input.customerId) hwith rfl id
      refine wp_mono hdenied fun _ _ => .aside ?_
      rintro ⟨-, ⟨record, hrecord⟩, -⟩
      cases hcustomer.symm.trans hrecord
    | some customer =>
      cases hrule : w.redactionRuleStore.live.get input.redactionRuleId with
      | none =>
        refine wp_congr (bind_of_run (customerDataAfter_unruled hcustomer hrule)) ?_
        have hdenied := denyCustomerAccess_unhindered env input .redactionRuleUnavailable
          (redactionRuleUnavailableMessage input.redactionRuleId) hwith rfl id
        refine wp_mono hdenied fun _ _ => .aside ?_
        rintro ⟨-, -, rule, hstored⟩
        rw [← hrules, hrule] at hstored
        cases hstored
      | some rule =>
        refine wp_congr (bind_of_run (customerDataAfter_ruled hcustomer hrule)) ?_
        rw [bind_assoc]
        have hasks : input.Resolves env w₀ := ⟨⟨customer, hcustomer⟩, rule, hrules ▸ hrule⟩
        refine gated_of_get h ⟨rfl, hasks⟩ (fun message w' hrecords => ⟨hrecords, trivial⟩) ?_
        exact fun found w' hw' => wp_bind (wp_bind (Faultless.wp_auditRecord hw'.1 rfl
          (wp_pure (wp_pure (unhindered_returned hw'.2 id)))))

theorem customer_gated (h : w.Faultless) (downstream : Downstream) (call : CustomerAccessInput)
    (frame : CustomerAccessFrame) :
    wp (resumeFrame env downstream (.customer frame)) (Gated env w (.accessCustomerData call)
      (frame.enforce.decision env = .allowed ∧ frame.input.Resolves env w)) w := by
  simp only [resumeFrame, synchronously, CustomerAccessFrame.resume, bind_assoc]
  refine gated_behind h ?_ ?_
  · rintro entry o w' ⟨⟨htokens, hpolicies, hrequests⟩, ho⟩
    exact ⟨⟨htokens, hpolicies, hrequests⟩, ho⟩
  · rintro _ ⟨entry, rfl⟩ h₁
    exact customerDataAfter_gated h₁ call frame.enforce.decision_available rfl

/-! ## The pieces together -/

/-- The piece of a call that goes on here makes an access to a guarded store. -/
def Frame.AsksStore (env : Env) (w : World) : Frame → Prop
  | .approve _ | .delegate (.issuing _ _) => True
  | .delegate (.verifying input parent) =>
    delegationDenial env input parent = none ∧ input.tokenRequest.AsksStore
  | .access (.enforcing _ gateway) => gateway.decision env = .allowed
  | .customer frame => frame.enforce.decision env = .allowed ∧ frame.input.Resolves env w
  | _ => False

/-- **The later pieces of a call.** -/
theorem resumeFrame_gated (h : w.Faultless) (downstream : Downstream) {frame : Frame}
    (hawaits : call.Awaits frame) (hcalm : frame.Calm) :
    wp (resumeFrame env downstream frame) (Gated env w call (frame.AsksStore env w)) w := by
  cases frame with
  | approve frame =>
    cases call <;> first | exact hawaits.elim | skip
    obtain rfl : frame.input = _ := hawaits
    exact approve_gated h downstream frame
  | delegate frame =>
    cases call <;> first | exact hawaits.elim | skip
    cases frame with
    | verifying input parent => exact verifying_gated h downstream _
    | issuing input issue => exact issuing_gated h downstream _ issue
  | enforce frame => exact enforce_gated h downstream frame
  | access frame =>
    cases frame with
    | enforcing input enforce =>
      cases call <;> first | exact hawaits.elim | skip
      exact access_enforcing_gated h downstream _ input enforce
    | calling loop accepted =>
      exact access_looping_gated h downstream (fun _ _ => AccessFrame.noConfusion) hcalm
    | sleeping loop lastError =>
      exact access_looping_gated h downstream (fun _ _ => AccessFrame.noConfusion) hcalm
  | customer frame =>
    cases call <;> first | exact hawaits.elim | skip
    exact customer_gated h downstream _ frame
  | register frame => exact gated_of_calmly (fun _ => id) h id (frame.calmly_resume)
  | authenticate frame => exact wp_pure (.aside id (unhindered_returned rfl id))

end Ambit
