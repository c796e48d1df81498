import Ambit.MockEndpointAccess
import Ambit.CustomerDataAccess
import Ambit.Policy
import Ambit.AgentIdentity
import Ambit.TokenSpec

/-! The operations that change no token and no request: the two accesses behind the gateway, whose
only event is the gateway's, and what operators do about policies, rules and agents. -/

namespace Ambit

open Effect

variable {env : Env} {w : World}

/-- What holds of the frame that a call stops at, if it does. -/
def Progress.OnFrame {φ α : Type} (P : φ → Prop) : Progress φ α → Prop
  | .returned _ => True
  | .awaiting frame => P frame

/-! ## Mock endpoints -/

/-- The gateway is behind the call. -/
def AccessFrame.PastGateway : AccessFrame → Prop
  | .enforcing _ _ => False
  | .calling _ _ | .sleeping _ _ => True

theorem AccessLoop.record_quietly (loop : AccessLoop) (outcome : AccessOutcome) :
    Quietly env (loop.record env outcome) fun _ => True := .auditRecord rfl _

theorem AccessLoop.next_quietly (loop : AccessLoop) (lastError : Err) :
    Quietly env (loop.next env lastError) (Progress.OnFrame AccessFrame.PastGateway) := by
  refine .ite (fun _ => ?_) fun _ => ?_
  · exact .bind .get fun _ _ => .pure trivial
  · cases lastError with
    | endpointUnreachable =>
      exact .bind (loop.record_quietly .unreachable) fun _ _ => .pure trivial
    | _ => exact .throw

theorem AccessLoop.failed_quietly (loop : AccessLoop) (err : Err) :
    Quietly env (loop.failed env err) (Progress.OnFrame AccessFrame.PastGateway) :=
  .ite (fun _ => .pure trivial) fun _ => next_quietly _ _

theorem accessAfter_quietly (input : AccessInput) (decision : EnforcementDecision) :
    Quietly env (accessAfter env input decision) (Progress.OnFrame AccessFrame.PastGateway) := by
  cases decision with
  | denied => exact .pure trivial
  | allowed => exact .bind (.tokenStore_get _) fun _ _ => AccessLoop.next_quietly _ _

/-- A call that has not come through the gateway yet holds the token as the ledger has it. -/
def AccessFrame.For (L : Ledger) (input : AccessInput) : AccessFrame → Prop
  | .enforcing input' enforce =>
    input' = input ∧ enforce.For L input.tokenId input.providedSecret input.action input.now
  | .calling _ _ | .sleeping _ _ => True

theorem AccessFrame.PastGateway.for {frame : AccessFrame} (h : frame.PastGateway) (L : Ledger)
    (input : AccessInput) : frame.For L input := by
  cases frame with
  | enforcing => exact h.elim
  | _ => trivial

theorem accessMockEndpoint_spec (h : w.Sound env) (input : AccessInput) :
    wp (accessMockEndpoint env input) (fun r w' => w.Quiet env w' ∧
      OnOk (Progress.OnFrame (AccessFrame.For w.ledger input)) r) w := by
  refine wp_bind (wp_mono (enforceToken_spec h ..) fun r w₁ ⟨hq, hr⟩ => ?_)
  cases r with
  | error => exact ⟨hq, trivial⟩
  | ok progress =>
    cases progress with
    | awaiting frame => exact wp_pure ⟨hq, rfl, hr⟩
    | returned decision =>
      refine wp_mono (accessAfter_quietly input decision w₁ hq.sound) fun r w₂ ⟨hq', hr'⟩ => ?_
      refine ⟨hq.trans hq', ?_⟩
      rcases r with _ | ⟨_ | frame⟩
      · trivial
      · trivial
      · exact hr'.for ..

/-- Coming out of the gateway is the gateway's event. -/
theorem AccessFrame.resume_enforcing_spec {input : AccessInput} {enforce : EnforceFrame}
    (h : w.Sound env) (hread : w.ledger.HasRead enforce.token) (downstream : Downstream) :
    wp (AccessFrame.resume env downstream (.enforcing input enforce)) (fun r w' =>
      w.Steps env (enforce.event env) w' ∧
        OnOk (Progress.OnFrame AccessFrame.PastGateway) r) w := by
  refine wp_bind (wp_mono (enforce.resume_spec h hread) ?_)
  rintro _ w₁ ⟨hstep, decision, rfl, -⟩
  refine wp_mono (accessAfter_quietly input decision w₁ hstep.sound) fun r w₂ ⟨hq, hr⟩ => ?_
  exact ⟨hstep.quiet hq, hr⟩

/-- Behind the gateway an access is quiet. -/
theorem AccessFrame.resume_quietly {frame : AccessFrame} (hpast : frame.PastGateway)
    (downstream : Downstream) :
    Quietly env (frame.resume env downstream) (Progress.OnFrame AccessFrame.PastGateway) := by
  cases frame with
  | enforcing => exact hpast.elim
  | calling loop accepted =>
    refine .ite (fun _ => ?_) fun _ => AccessLoop.failed_quietly _ _
    refine .bind (.attempt (loop.record_quietly .success)) fun result _ => ?_
    cases result with
    | ok => exact .pure trivial
    | error => exact AccessLoop.failed_quietly _ _
  | sleeping loop lastError => exact AccessLoop.next_quietly _ _

/-! ## Customer data -/

theorem denyCustomerAccess_quietly (input : CustomerAccessInput) (reasonCode : CustomerDenialReason)
    (message : String) :
    Quietly env (denyCustomerAccess env input reasonCode message) fun _ => True :=
  .bind (.auditRecord rfl _) fun _ _ => .pure trivial

theorem customerDataAfter_quietly (input : CustomerAccessInput) (decision : EnforcementDecision) :
    Quietly env (customerDataAfter env input decision) fun _ => True := by
  cases decision with
  | denied => exact .pure trivial
  | allowed =>
    simp only [customerDataAfter]
    cases env.customerRegistry input.customerId with
    | none => exact denyCustomerAccess_quietly _ _ _
    | some customer =>
      refine .bind .get fun w _ => ?_
      cases w.redactionRuleStore.live.get input.redactionRuleId with
      | none => exact denyCustomerAccess_quietly _ _ _
      | some rule =>
        refine .bind (.tokenStore_get _) fun token _ => ?_
        exact .bind (.auditRecord rfl _) fun _ _ => .pure trivial

/-- A suspended access to customer data holds the token as the ledger has it. -/
structure CustomerAccessFrame.For (L : Ledger) (input : CustomerAccessInput)
    (frame : CustomerAccessFrame) : Prop where
  input_eq : frame.input = input
  enforce : frame.enforce.For L input.tokenId input.providedSecret customerReadAction input.now

theorem accessCustomerData_spec (h : w.Sound env) (input : CustomerAccessInput) :
    wp (accessCustomerData env input) (fun r w' => w.Quiet env w' ∧
      OnOk (Progress.OnFrame (CustomerAccessFrame.For w.ledger input)) r) w := by
  refine wp_bind (wp_mono (enforceToken_spec h ..) fun r w₁ ⟨hq, hr⟩ => ?_)
  cases r with
  | error => exact ⟨hq, trivial⟩
  | ok progress =>
    cases progress with
    | awaiting frame => exact wp_pure ⟨hq, rfl, hr⟩
    | returned decision =>
      refine wp_bind (wp_mono (customerDataAfter_quietly input decision w₁ hq.sound) ?_)
      intro r w₂ ⟨hq', hr'⟩
      cases r with
      | error => exact ⟨hq.trans hq', trivial⟩
      | ok => exact wp_pure ⟨hq.trans hq', trivial⟩

theorem CustomerAccessFrame.resume_spec {frame : CustomerAccessFrame} (h : w.Sound env)
    (hread : w.ledger.HasRead frame.enforce.token) :
    wp (frame.resume env) (fun _ w' => w.Steps env (frame.enforce.event env) w') w := by
  refine wp_bind (wp_mono (frame.enforce.resume_spec h hread) ?_)
  rintro _ w₁ ⟨hstep, decision, rfl, -⟩
  refine wp_mono (customerDataAfter_quietly frame.input decision w₁ hstep.sound) ?_
  exact fun r w₂ ⟨hq, _⟩ => hstep.quiet hq

/-! ## Policies, rules, agents -/

theorem PolicyInput.validate_quietly (input : PolicyInput) :
    Quietly env input.validate fun _ => True := by
  refine .bind (.throwIf (P := fun _ => True) fun _ => trivial) fun _ _ => ?_
  refine .bind (.throwIf (P := fun _ => True) fun _ => trivial) fun _ _ => ?_
  exact .throwIf fun _ => trivial

theorem createPolicy_quietly (input : PolicyInput) (authoredBy : String) (now : Int) :
    Quietly env (createPolicy env input authoredBy now) fun _ => True := by
  refine .bind input.validate_quietly fun _ _ => .bind .draw fun id _ => ?_
  exact .bind (.policyStore_save _) fun _ _ => .bind (.auditRecord rfl _) fun _ _ => .pure trivial

theorem modifyPolicy_quietly (policyId : String) (changes : PolicyChanges) (authoredBy : String)
    (now : Int) : Quietly env (modifyPolicy env policyId changes authoredBy now) fun _ => True := by
  refine .bind (.policyStore_get _) fun found _ => ?_
  cases found with
  | none => exact .throw
  | some existing =>
    refine .bind (PolicyInput.validate_quietly _) fun _ _ => .bind (.policyStore_save _) fun _ _ => ?_
    exact .bind (.auditRecord rfl _) fun _ _ => .pure trivial

theorem RedactionRuleInput.validate_quietly (input : RedactionRuleInput) :
    Quietly env input.validate fun _ => True := by
  refine .bind (.throwIf (P := fun _ => True) fun _ => trivial) fun _ _ => ?_
  refine .bind (.throwIf (P := fun _ => True) fun _ => trivial) fun _ _ => ?_
  cases fieldError input.sensitiveFields with
  | some err => exact .throw
  | none => exact .pure trivial

theorem createRedactionRule_quietly (input : RedactionRuleInput) (authoredBy : String)
    (now : Int) : Quietly env (createRedactionRule env input authoredBy now) fun _ => True := by
  refine .bind input.validate_quietly fun _ _ => .bind .draw fun id _ => ?_
  refine .bind (.redactionRuleStore_save _) fun _ _ => ?_
  exact .bind (.auditRecord rfl _) fun _ _ => .pure trivial

theorem defaultRedactionRule_quietly :
    Quietly env (defaultRedactionRule env) fun _ => True := by
  refine .bind .get fun w _ => ?_
  cases w.redactionRuleStore.live.values.find? fun r => r.name = standardRule.name with
  | some rule => exact .pure trivial
  | none => exact .bind .now fun now _ => createRedactionRule_quietly _ _ _

theorem registerAgentIdentity_quietly (subject createdBy : String) (now : Int) :
    Quietly env (registerAgentIdentity env subject createdBy now) fun _ => True := by
  have hvalidate : Quietly env (validateAgentIdentity subject) fun _ => True := by
    refine .bind (.throwIf (P := fun _ => True) fun _ => trivial) fun _ _ => ?_
    exact .bind .get fun _ _ => .throwIf fun _ => trivial
  refine .bind hvalidate fun _ _ => .bind .draw fun id _ => ?_
  exact .bind .draw fun secret _ => .bind .draw fun salt _ => .pure trivial

theorem RegisterFrame.resume_quietly (frame : RegisterFrame) :
    Quietly env (frame.resume env) fun _ => True := by
  refine .bind (.agentIdentityStore_save _) fun _ _ => ?_
  exact .bind (.auditRecord rfl _) fun _ _ => .pure trivial

theorem authenticateAgent_quietly (credential : String) :
    Quietly env (authenticateAgent credential) fun _ => True := by
  unfold authenticateAgent
  cases splitCredential credential with
  | none => exact .pure trivial
  | some halves =>
    refine .bind .get fun w _ => ?_
    cases w.agentIdentityStore.live.get halves.1 with
    | none => exact .pure trivial
    | some identity => exact .pure trivial

end Ambit
