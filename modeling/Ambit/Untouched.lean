import Ambit.FailureRules
import Ambit.OneAtATime
import Ambit.Runtime

/-! What the operations do to the state, whatever the breaker and the file operations do: a relation
that the log, the breaker and the other small effects respect, every call respects. -/

namespace Ambit

open Effect

variable {env : Env} {α : Type} {R : World → World → Prop}

/-- A relation from a state to what the small effects on the log, the breaker and the mock systems
make of it. -/
class UncountedEffects (R : World → World → Prop) : Prop extends IsPreorder World R where
  logged : ∀ (w : World) log supply faults, w.supply ≤ supply →
    R w { w with auditLog := log, supply := supply, faults := faults }
  breaker : ∀ w b, R w { w with storeCircuitBreaker := b }
  endpoints : ∀ w systems, R w { w with mockEndpoints := systems }

/-- A relation from a state to what the small effects make of it: those of the log, of the breaker
and of the memory that no file keeps. -/
class SmallEffects (R : World → World → Prop) : Prop extends UncountedEffects R where
  anomaly : ∀ w detector, R w { w with anomalyDetector := detector }

class IdentitySaves (R : World → World → Prop) : Prop where
  identities : ∀ w faults store, R w { w with faults := faults, agentIdentityStore := store }

class RuleSaves (R : World → World → Prop) : Prop where
  rules : ∀ w faults store, R w { w with faults := faults, redactionRuleStore := store }

class RequestSaves (R : World → World → Prop) : Prop where
  requests : ∀ (w : World) faults appended r, R w { w with
    faults := faults
    requestStore := w.requestStore.save PendingRequest.id PendingRequest.image appended r }

/-- The effects on the token and policy stores are left out. -/
class Everyday (R : World → World → Prop) : Prop extends
  SmallEffects R, IdentitySaves R, RuleSaves R, RequestSaves R

/-! ## The operations of the stores and of the log -/

section
variable [UncountedEffects R]

theorem along_now : Along R now := Along.bind Along.get fun _ => Along.pure

theorem along_draw {value : ℕ → α} : Along R (draw value) :=
  fun w => UncountedEffects.logged w w.auditLog (w.supply + 1) w.faults (Nat.le_succ _)

theorem along_auditRecord (entry : AuditEntryInput) (now : Int) :
    Along R (auditRecord env entry now) := by
  intro w
  simp only [after, auditRecord]
  cases (w.auditLog.record _ _ _ _ entry now).1 <;>
    exact UncountedEffects.logged w _ _ _ (Nat.le_succ _)

theorem along_onStateChange (change : CircuitStateChange) :
    Along R (onStateChange env change) := by
  refine Along.bind along_now fun t => ?_
  cases change.target with
  | halfOpen => exact Along.pure
  | opened => exact along_auditRecord _ _
  | closed => exact along_auditRecord _ _

theorem along_breakerTransition
    (transition : CircuitBreaker → CircuitBreaker × Option CircuitStateChange) :
    Along R (breakerTransition env transition) := by
  refine Along.of_wp fun w => wp_bind (wp_get (wp_bind (wp_set ?_)))
  have hbreaker : R w (w.withBreaker (transition w.storeCircuitBreaker).1) := UncountedEffects.breaker w _
  generalize transition w.storeCircuitBreaker = result at hbreaker ⊢
  obtain ⟨b, change⟩ := result
  cases change with
  | none => exact wp_pure hbreaker
  | some change =>
    exact wp_mono ((along_onStateChange change).wp _) fun _ _ h => IsTrans.trans _ _ _ hbreaker h

/-- The breaker around an operation adds small effects to what the operation does. -/
theorem along_execute {fn : Op α} (hfn : Along R fn) : Along R (execute env fn) := by
  refine Along.of_wp fun w => wp_bind (wp_get (wp_ite (fun _ => wp_throw ?_) fun _ => ?_))
  · exact Std.Refl.refl w
  have hadmitted : Along R (attempt do
      if w.storeCircuitBreaker.simulatingOutage then throw (.circuitOpen "simulated outage")
      else
        let result ← fn
        breakerTransition env CircuitBreaker.onSuccess
        return result : Op (Except Err α)) :=
    Along.attempt (Along.ite Along.throw (Along.bind hfn fun _ =>
      Along.bind (along_breakerTransition _) fun _ => Along.pure))
  refine wp_bind (wp_set (wp_bind (wp_mono (hadmitted.wp _) fun r w' hw' => ?_)))
  have hw' : R w w' := IsTrans.trans _ _ _ (UncountedEffects.breaker w _) hw'
  cases r with
  | error => exact hw'
  | ok outcome =>
    cases outcome with
    | ok => exact wp_pure hw'
    | error err =>
      have hrethrown : Along R (do
          breakerTransition env (CircuitBreaker.onFailure env.circuitBreaker w.clock)
          throw err : Op α) := Along.bind (along_breakerTransition _) fun _ => Along.throw
      exact wp_mono (hrethrown.wp w') fun _ _ h => IsTrans.trans _ _ _ hw' h

end

theorem along_saveRecord {ρ : Type} {key : ρ → String} {image : ρ → ρ}
    {store : World → Journal String ρ} {put : World → Journal String ρ → World} {record : ρ}
    (hput : ∀ w faults appended,
      R w (put { w with faults := faults } ((store w).save key image appended record))) :
    Along R (saveRecord key image store put record) := by
  intro w
  simp only [after, saveRecord]
  cases (nextFault w.faults).1 <;> exact hput _ _ _

section
variable [UncountedEffects R]

theorem along_tokenStore_get (id : String) : Along R (TokenStore.get env id) :=
  along_execute (Along.bind Along.get fun _ => Along.pure)

/-- What reading the store finds is what was there before. -/
theorem TokenStore.wp_get_found {w : World} (id : String) : wp (TokenStore.get env id)
    (fun r _ => OnOk (· = w.tokenStore.live.get id) r) w := by
  refine wp_mono (TokenStore.wp_get_failing id) ?_
  rintro r w' ⟨-, hr⟩
  cases r with
  | error => trivial
  | ok found =>
    unfold World.Ends at hr
    split at hr
    · obtain ⟨err, hr⟩ := hr
      cases hr
    · split at hr
      · rcases hr.1 with h | h
        · cases h
        · exact Except.ok.inj h.1
      · exact Except.ok.inj hr.1

theorem TokenStore.wp_get_stored {w : World} (id : String) : wp (TokenStore.get env id)
    (fun r _ => ∀ t, r = .ok (some t) → w.tokenStore.live.get id = some t) w := by
  refine wp_mono (TokenStore.wp_get_found id) ?_
  rintro r w' hr t rfl
  exact hr.symm

theorem along_policyStore_get (id : String) : Along R (PolicyStore.get env id) :=
  along_execute (Along.bind Along.get fun _ => Along.pure)

theorem along_requestStore_get (id : String) : Along R (RequestStore.get id) :=
  Along.bind Along.get fun _ => Along.pure

omit [UncountedEffects R] in
theorem along_requestStore_save [RequestSaves R] (r : PendingRequest) : Along R (RequestStore.save r) :=
  along_saveRecord fun w faults appended => RequestSaves.requests w faults appended r

/-! ## The calls -/

theorem along_synchronously {x : Op α} (hx : Along R x) (outcome : α → Outcome) :
    Along R (synchronously x outcome) := Along.bind hx fun _ => Along.pure

theorem along_map {φ ψ γ : Type} {x : Op (Progress φ α)} (hx : Along R x) (onFrame : φ → ψ)
    (onValue : α → γ) : Along R (do return (← x).map onFrame onValue) :=
  Along.bind hx fun _ => Along.pure

omit [UncountedEffects R] in
theorem along_requestToken [SmallEffects R] [RequestSaves R] (request : SubmittedRequest)
    (primaryApprover : Option String)
    (now : Int) : Along R (requestToken env request primaryApprover now) := by
  refine Along.bind Along.get fun w => ?_
  cases existingRequest w request with
  | some existing => exact Along.pure
  | none =>
    refine Along.bind along_draw fun id => ?_
    refine Along.bind (along_requestStore_save _) fun _ =>
      Along.bind (along_auditRecord _ _) fun _ => ?_
    have hanomaly : Along R (checkAnomaly env request.subject request.scope now) :=
      fun w => SmallEffects.anomaly w _
    exact Along.bind hanomaly fun anomaly =>
      Along.bind (Along.ite (along_auditRecord _ _) Along.pure) fun _ => Along.pure

theorem along_checkPolicy (request : TokenRequest) (policyId : String) (hasPolicyStore : Bool) :
    Along R (checkPolicy env request policyId hasPolicyStore) := by
  refine Along.bind Along.throwIf fun _ => Along.bind (along_policyStore_get _) fun found => ?_
  cases found with
  | none => exact Along.throw
  | some policy => exact Along.bind Along.throwIf fun _ => Along.throwIf

theorem along_issueToken (request : TokenRequest) (hasPolicyStore : Bool) :
    Along R (issueToken env request hasPolicyStore) := by
  refine Along.bind Along.throwIf fun _ => Along.bind Along.throwIf fun _ => Along.bind ?_ fun _ => ?_
  · cases truthy request.policyId with
    | some policyId => exact along_checkPolicy request policyId hasPolicyStore
    | none => exact Along.pure
  · refine Along.bind along_now fun issuedAt => Along.bind ?_ fun parent => ?_
    · cases truthy request.parentTokenId with
      | some parentTokenId => exact along_tokenStore_get parentTokenId
      | none => exact Along.pure
    · exact Along.bind along_draw fun _ => Along.bind along_draw fun _ => Along.pure

theorem along_catchApprovalFailure (input : ApprovalInput) (pending : PendingRequest)
    {issue : Op α} (h : Along R issue) : Along R (catchApprovalFailure env input pending issue) := by
  refine Along.bind (Along.attempt h) fun r => ?_
  cases r with
  | ok value => exact Along.pure
  | error err =>
    refine Along.bind ?_ fun _ => Along.throw
    cases err.approvalFailure with
    | some message => exact along_auditRecord _ _
    | none => exact Along.pure

theorem along_getPending (requestId verb : String) : Along R (getPending requestId verb) := by
  refine Along.bind (along_requestStore_get _) fun found => ?_
  cases found with
  | none => exact Along.throw
  | some pending => exact Along.bind Along.throwIf fun _ => Along.pure

theorem along_assertEligibleDecider (pending : PendingRequest) (approver action : String)
    (now : Int) : Along R (assertEligibleDecider env pending approver action now) :=
  Along.ite Along.pure (Along.bind (along_auditRecord _ _) fun _ => Along.throw)

theorem along_approveRequest (input : ApprovalInput) : Along R (approveRequest env input) :=
  Along.bind (along_getPending _ _) fun pending =>
    Along.bind (along_assertEligibleDecider _ _ _ _) fun _ =>
      Along.bind (along_catchApprovalFailure input pending (along_issueToken _ _)) fun _ =>
        Along.pure

theorem along_denyRequest [RequestSaves R] (requestId approver : String) (reasonCode : DenialReason)
    (now : Int) :
    Along R (denyRequest env requestId approver reasonCode now) :=
  Along.bind (along_getPending _ _) fun _ =>
    Along.bind (along_assertEligibleDecider _ _ _ _) fun _ =>
      Along.bind (along_requestStore_save _) fun _ => along_auditRecord _ _

theorem along_checkRequestTimeout [RequestSaves R] (requestId : String) (decisionWindowMs : JsNumber)
    (backupApprover : Option String) (now : Int) :
    Along R (checkRequestTimeout env requestId decisionWindowMs backupApprover now) := by
  unfold checkRequestTimeout
  cases truthy backupApprover with
  | none => exact Along.pure
  | some backup =>
    refine Along.bind (along_requestStore_get _) fun found => ?_
    cases found with
    | none => exact Along.pure
    | some pending =>
      exact Along.ite (Along.bind (along_requestStore_save _) fun _ => along_auditRecord _ _)
        Along.pure

theorem along_claimTokenSecret [RequestSaves R] (requestId requestingSubject : String) (now : Int) :
    Along R (claimTokenSecret env requestId requestingSubject now) := by
  refine Along.bind (along_requestStore_get _) fun found => ?_
  cases found with
  | none => exact Along.throw
  | some pending =>
    refine Along.ite (Along.bind (along_auditRecord _ _) fun _ => Along.throw) ?_
    split
    · exact Along.bind (along_requestStore_save _) fun _ =>
        Along.bind (along_auditRecord _ _) fun _ => Along.pure
    · exact Along.throw
    · exact Along.throw

theorem along_denyDelegation (input : DelegationInput) (reasonCode : DelegationDenialReason) :
    Along R (denyDelegation env input reasonCode) :=
  Along.bind (along_auditRecord _ _) fun _ => Along.pure

theorem along_catchCircuitOpen (input : DelegationInput) (result : Except Err α)
    {k : α → Op (Progress DelegateFrame DelegationDecision)} (hk : ∀ a, Along R (k a)) :
    Along R (catchCircuitOpen env input result k) := by
  cases result with
  | ok a => exact hk a
  | error err =>
    cases err with
    | circuitOpen => exact Along.bind (along_denyDelegation input _) fun _ => Along.pure
    | _ => exact Along.throw

theorem along_delegateToken (input : DelegationInput) : Along R (delegateToken env input) := by
  refine Along.bind (Along.attempt (along_tokenStore_get _)) fun found => ?_
  rcases found with err | _ | parent
  · cases err with
    | circuitOpen => exact Along.bind (along_denyDelegation input _) fun _ => Along.pure
    | _ => exact Along.throw
  · exact Along.bind (along_denyDelegation input _) fun _ => Along.pure
  · exact Along.pure

theorem along_denyEnforcement (tokenId subject action : String) (now : Int)
    (reasonCode : EnforcementDenialReason) (message : String) :
    Along R (denyEnforcement env tokenId subject action now reasonCode message) :=
  Along.bind (along_auditRecord _ _) fun _ => Along.pure

theorem along_enforceToken (tokenId providedSecret action : String) (now : Int) :
    Along R (enforceToken env tokenId providedSecret action now) := by
  refine Along.bind (Along.attempt (along_tokenStore_get _)) fun found => ?_
  rcases found with err | _ | token
  · cases err with
    | circuitOpen => exact Along.bind (along_denyEnforcement _ _ _ _ _ _) fun _ => Along.pure
    | _ => exact Along.throw
  · exact Along.bind (along_denyEnforcement _ _ _ _ _ _) fun _ => Along.pure
  · exact Along.pure

theorem EnforceFrame.along_resume (frame : EnforceFrame) : Along R (frame.resume env) := by
  refine Along.ite (along_denyEnforcement _ _ _ _ _ _) ?_
  split
  · exact Along.bind (along_auditRecord _ _) fun _ => Along.pure
  · exact along_denyEnforcement _ _ _ _ _ _

theorem AccessLoop.along_next (loop : AccessLoop) (lastError : Err) :
    Along R (loop.next env lastError) := by
  refine Along.ite (Along.bind Along.get fun _ => Along.pure) ?_
  split
  · exact Along.bind (along_auditRecord _ _) fun _ => Along.pure
  · exact Along.throw

theorem AccessLoop.along_failed (loop : AccessLoop) (err : Err) : Along R (loop.failed env err) :=
  Along.ite Along.pure (AccessLoop.along_next _ _)

theorem along_accessAfter (input : AccessInput) (decision : EnforcementDecision) :
    Along R (accessAfter env input decision) := by
  cases decision with
  | denied => exact Along.pure
  | allowed => exact Along.bind (along_tokenStore_get _) fun _ => AccessLoop.along_next _ _

theorem along_accessMockEndpoint (input : AccessInput) : Along R (accessMockEndpoint env input) := by
  refine Along.bind (along_enforceToken _ _ _ _) fun progress => ?_
  cases progress with
  | awaiting => exact Along.pure
  | returned decision => exact along_accessAfter input decision

theorem AccessFrame.along_resume (downstream : Downstream) (frame : AccessFrame) :
    Along R (frame.resume env downstream) := by
  cases frame with
  | enforcing input frame =>
    exact Along.bind frame.along_resume fun decision => along_accessAfter input decision
  | calling loop accepted =>
    refine Along.ite (Along.bind (Along.attempt (along_auditRecord _ _)) fun r => ?_)
      (AccessLoop.along_failed _ _)
    cases r with
    | ok => exact Along.pure
    | error err => exact AccessLoop.along_failed _ _
  | sleeping loop lastError => exact AccessLoop.along_next _ _

theorem along_customerDataAfter (input : CustomerAccessInput) (decision : EnforcementDecision) :
    Along R (customerDataAfter env input decision) := by
  have hdeny : ∀ reasonCode message, Along R (denyCustomerAccess env input reasonCode message) :=
    fun _ _ => Along.bind (along_auditRecord _ _) fun _ => Along.pure
  cases decision with
  | denied => exact Along.pure
  | allowed =>
    unfold customerDataAfter
    cases env.customerRegistry input.customerId with
    | none => exact hdeny _ _
    | some customer =>
      refine Along.bind Along.get fun w => ?_
      cases w.redactionRuleStore.live.get input.redactionRuleId with
      | none => exact hdeny _ _
      | some rule =>
        exact Along.bind (along_tokenStore_get _) fun token =>
          Along.bind (along_auditRecord _ _) fun _ => Along.pure

theorem along_accessCustomerData (input : CustomerAccessInput) :
    Along R (accessCustomerData env input) := by
  refine Along.bind (along_enforceToken _ _ _ _) fun progress => ?_
  cases progress with
  | awaiting => exact Along.pure
  | returned decision => exact Along.bind (along_customerDataAfter _ _) fun _ => Along.pure

theorem along_lineageChain (fuel : ℕ) (current : Token) (chain : List Token) :
    Along R (lineageChain env fuel current chain) := by
  induction fuel generalizing current chain with
  | zero => exact Along.pure
  | succ fuel ih =>
    unfold lineageChain
    cases truthy current.parentTokenId with
    | none => exact Along.pure
    | some parentTokenId =>
      refine Along.bind (along_tokenStore_get _) fun found => ?_
      cases found with
      | none => exact Along.pure
      | some parent => exact ih parent _

theorem along_getTokenLineage (fuel : ℕ) (tokenId : String) :
    Along R (getTokenLineage env fuel tokenId) := by
  refine Along.bind (along_tokenStore_get _) fun found => ?_
  cases found with
  | none => exact Along.throw
  | some target =>
    refine Along.bind (along_lineageChain _ _ _) fun chain => ?_
    cases chain with
    | none => exact Along.pure
    | some chain => exact Along.bind Along.get fun _ => Along.pure

theorem along_createRedactionRule [RuleSaves R] (input : RedactionRuleInput) (authoredBy : String)
    (now : Int) :
    Along R (createRedactionRule env input authoredBy now) := by
  refine Along.bind ?_ fun _ => Along.bind along_draw fun id => Along.bind
    (along_saveRecord fun w faults appended => RuleSaves.rules w faults _) fun _ =>
      Along.bind (along_auditRecord _ _) fun _ => Along.pure
  refine Along.bind Along.throwIf fun _ => Along.bind Along.throwIf fun _ => ?_
  cases RedactionRuleInput.fieldError input.sensitiveFields with
  | some err => exact Along.throw
  | none => exact Along.pure

theorem along_registerAgentIdentity (subject createdBy : String) (now : Int) :
    Along R (registerAgentIdentity env subject createdBy now) :=
  Along.bind (Along.bind Along.throwIf fun _ => Along.bind Along.get fun _ => Along.throwIf) fun _ =>
    Along.bind along_draw fun _ => Along.bind along_draw fun _ =>
      Along.bind along_draw fun _ => Along.pure

theorem RegisterFrame.along_resume [IdentitySaves R] (frame : RegisterFrame) : Along R (frame.resume env) :=
  Along.bind (along_saveRecord fun w faults _ => IdentitySaves.identities w faults _) fun _ =>
    Along.bind (along_auditRecord _ _) fun _ => Along.pure

theorem along_authenticateAgent (credential : String) : Along R (authenticateAgent credential) := by
  unfold authenticateAgent
  split
  · exact Along.pure
  · refine Along.bind Along.get fun w => ?_
    split
    · exact Along.pure
    · exact Along.pure

/-! ## The calls that store tokens or policies -/

theorem along_validate (input : PolicyInput) : Along R input.validate :=
  Along.bind Along.throwIf fun _ => Along.bind Along.throwIf fun _ => Along.throwIf

section
variable (hsave : ∀ policy, Along R (PolicyStore.save env policy))
include hsave

theorem along_createPolicy (input : PolicyInput) (authoredBy : String) (now : Int) :
    Along R (createPolicy env input authoredBy now) :=
  Along.bind (along_validate _) fun _ => Along.bind along_draw fun _ => Along.bind (hsave _) fun _ =>
    Along.bind (along_auditRecord _ _) fun _ => Along.pure

theorem along_modifyPolicy (policyId : String) (changes : PolicyChanges) (authoredBy : String)
    (now : Int) : Along R (modifyPolicy env policyId changes authoredBy now) := by
  refine Along.bind (along_policyStore_get _) fun found => ?_
  cases found with
  | none => exact Along.throw
  | some existing =>
    exact Along.bind (along_validate _) fun _ => Along.bind (hsave _) fun _ =>
      Along.bind (along_auditRecord _ _) fun _ => Along.pure

end

section
variable (hissue : ∀ frame : IssueFrame, Along R (frame.resume env))
include hissue

theorem ApproveFrame.along_resume [RequestSaves R] (frame : ApproveFrame) : Along R (frame.resume env) :=
  Along.bind (along_catchApprovalFailure _ _ (hissue _)) fun _ =>
    Along.bind (along_requestStore_save _) fun _ =>
      Along.bind (along_auditRecord _ _) fun _ => Along.pure

theorem DelegateFrame.along_resume (frame : DelegateFrame) : Along R (frame.resume env) := by
  cases frame with
  | verifying input parent =>
    simp only [DelegateFrame.resume]
    cases delegationDenial env input parent with
    | some reasonCode => exact Along.bind (along_denyDelegation input _) fun _ => Along.pure
    | none =>
      exact Along.bind (Along.attempt (along_issueToken _ _)) fun issue =>
        along_catchCircuitOpen input issue fun _ => Along.pure
  | issuing input issue =>
    exact Along.bind (Along.attempt (hissue _)) fun issued =>
      along_catchCircuitOpen input issued fun _ =>
        Along.bind (along_auditRecord _ _) fun _ => Along.pure

theorem along_approveAtOnce [RequestSaves R] (input : ApprovalInput) : Along R (approveAtOnce env input) :=
  Along.bind (along_approveRequest input) fun frame => frame.along_resume hissue

theorem along_delegateAtOnce (input : DelegationInput) : Along R (delegateAtOnce env input) := by
  have hgoOn : ∀ progress, Along R (goOn env progress) := by
    intro progress
    cases progress with
    | returned => exact Along.pure
    | awaiting frame => exact frame.along_resume hissue
  exact Along.bind (along_delegateToken input) fun progress =>
    Along.bind (hgoOn progress) fun progress => hgoOn progress

/-- A suspended call goes on. -/
theorem along_resumeFrame [RequestSaves R] (downstream : Downstream) (frame : Frame)
    (hregister : ∀ f : RegisterFrame, frame = .register f → Along R (f.resume env)) :
    Along R (resumeFrame env downstream frame) := by
  cases frame with
  | approve frame => exact along_synchronously (frame.along_resume hissue) _
  | delegate frame => exact along_map (frame.along_resume hissue) _ _
  | enforce frame => exact along_synchronously frame.along_resume _
  | access frame => exact along_map (frame.along_resume downstream) _ _
  | customer frame =>
    exact along_synchronously (Along.bind frame.enforce.along_resume fun _ =>
      along_customerDataAfter _ _) _
  | register frame => exact along_synchronously (hregister frame rfl) _
  | authenticate frame => exact Along.pure

end

section
variable (hsave : ∀ (w : World) i t, w.tokenStore.live.get i = some t →
  (∀ now reasonCode, Along R (TokenStore.save env (t.revoke now reasonCode))) ∨ ∀ w', R w w')
include hsave

theorem along_cascadeRevokeAux (now : Int) (actor : Option String) (fuel : ℕ) (parentId : String) :
    Along R (cascadeRevokeAux env now actor fuel parentId) := by
  induction fuel generalizing parentId with
  | zero => exact Along.pure
  | succ fuel ih =>
    refine Along.of_wp fun w => wp_bind (wp_get ?_)
    by_cases hany : ∀ w', R w w'
    · exact wp_any fun _ w' => hany w'
    have hchild : ∀ child ∈ childrenOf w parentId, Along R (do
        if child.status = .active then
          TokenStore.save env (child.revoke now .parentRevoked)
          auditRecord env (revocationEntry child.id child.subject .parentRevoked actor) now
          cascadeRevokeAux env now actor fuel child.id) := by
      intro child hmem
      obtain ⟨i, hi⟩ := OrderedMap.mem_values_iff.mp (List.mem_filter.mp hmem).1
      have hsave := (hsave w i child hi).resolve_right hany
      exact Along.ite (Along.bind (hsave _ _) fun _ =>
        Along.bind (along_auditRecord _ _) fun _ => ih child.id) Along.pure
    exact (Along.forM hchild).wp w

theorem along_revokeToken (tokenId : String) (reasonCode : RevocationReason) (now : Int)
    (actor : Option String) : Along R (revokeToken env tokenId reasonCode now actor) := by
  have hget : Along R (TokenStore.get env tokenId) := along_tokenStore_get tokenId
  refine Along.of_wp fun w => wp_bind (wp_mono (wp_and (TokenStore.wp_get_stored tokenId)
    (hget.wp w)) ?_)
  rintro r w₁ ⟨hstored, hw₁⟩
  cases r with
  | error => exact hw₁
  | ok found =>
    cases found with
    | none => exact wp_throw hw₁
    | some token =>
      by_cases hany : ∀ w', R w w'
      · exact wp_any fun _ w' => hany w'
      have hsaved := (hsave w tokenId token (hstored token rfl)).resolve_right hany
      have hrest : Along R (do
          TokenStore.save env (token.revoke now reasonCode)
          auditRecord env (revocationEntry tokenId token.subject reasonCode actor) now
          cascadeRevoke env tokenId now actor
          return token.revoke now reasonCode : Op Token) :=
        Along.bind (hsaved _ _) fun _ => Along.bind (along_auditRecord _ _) fun _ =>
          Along.bind (Along.bind Along.get fun _ => along_cascadeRevokeAux hsave _ _ _ _) fun _ =>
            Along.pure
      exact wp_mono (hrest.wp w₁) fun _ _ h => IsTrans.trans _ _ _ hw₁ h

end

/-- A call starts, by what it does if it submits a request or makes a rule. -/
theorem along_startCall_except [RequestSaves R]
    (hsave : ∀ policy, Along R (PolicyStore.save env policy))
    (hrevoke : ∀ tokenId reasonCode now actor,
      Along R (revokeToken env tokenId reasonCode now actor)) (call : Call)
    (hrequest : ∀ request primaryApprover now, call = .requestToken request primaryApprover now →
      Along R (requestToken env request primaryApprover now))
    (hrule : ∀ input authoredBy now, call = .createRedactionRule input authoredBy now →
      Along R (createRedactionRule env input authoredBy now)) :
    Along R (startCall env call) := by
  cases call with
  | requestToken request primaryApprover now => exact along_synchronously (hrequest _ _ _ rfl) _
  | approveRequest input => exact Along.bind (along_approveRequest input) fun _ => Along.pure
  | denyRequest requestId approver reasonCode now =>
    exact along_synchronously (along_denyRequest requestId approver reasonCode now) _
  | checkRequestTimeout requestId decisionWindowMs backupApprover now =>
    exact along_synchronously (along_checkRequestTimeout _ _ _ _) _
  | claimTokenSecret requestId requestingSubject now =>
    exact along_synchronously (along_claimTokenSecret _ _ _) _
  | delegateToken input => exact along_map (along_delegateToken input) _ _
  | enforceToken tokenId providedSecret action now => exact along_map (along_enforceToken _ _ _ _) _ _
  | accessMockEndpoint input => exact along_map (along_accessMockEndpoint input) _ _
  | accessCustomerData input => exact along_map (along_accessCustomerData input) _ _
  | revokeToken tokenId reasonCode now actor => exact along_synchronously (hrevoke _ _ _ _) _
  | getTokenLineage tokenId =>
    exact Along.bind Along.get fun _ => along_synchronously (along_getTokenLineage _ _) _
  | createPolicy input authoredBy now =>
    exact along_synchronously (along_createPolicy hsave input authoredBy now) _
  | modifyPolicy policyId changes authoredBy now =>
    exact along_synchronously (along_modifyPolicy hsave policyId changes authoredBy now) _
  | createRedactionRule input authoredBy now =>
    exact along_synchronously (hrule _ _ _ rfl) _
  | registerAgentIdentity subject createdBy now =>
    exact Along.bind (along_registerAgentIdentity _ _ _) fun _ => Along.pure
  | authenticateAgent credential => exact along_map (along_authenticateAgent credential) _ _
  | recordLogin username matched now =>
    exact along_synchronously (Along.ite (along_auditRecord _ _) (along_auditRecord _ _)) _
  | simulateOutage down =>
    exact along_synchronously (Along.modify fun w => UncountedEffects.breaker w _) _
  | recordOutageToggle down now => exact along_synchronously (along_auditRecord _ _) _
  | setDown system down => exact along_synchronously (Along.modify fun w => UncountedEffects.endpoints w _) _

theorem along_startCall_of [RequestSaves R] [RuleSaves R]
    (hsave : ∀ policy, Along R (PolicyStore.save env policy))
    (hrevoke : ∀ tokenId reasonCode now actor,
      Along R (revokeToken env tokenId reasonCode now actor)) (call : Call)
    (hrequest : ∀ request primaryApprover now, call = .requestToken request primaryApprover now →
      Along R (requestToken env request primaryApprover now)) :
    Along R (startCall env call) :=
  along_startCall_except hsave hrevoke call hrequest fun _ _ _ _ => along_createRedactionRule _ _ _

omit [UncountedEffects R] in
theorem along_startCall [SmallEffects R] [RequestSaves R] [RuleSaves R]
    (hsave : ∀ policy, Along R (PolicyStore.save env policy))
    (hrevoke : ∀ tokenId reasonCode now actor,
      Along R (revokeToken env tokenId reasonCode now actor)) (call : Call) :
    Along R (startCall env call) :=
  along_startCall_of hsave hrevoke call fun _ _ _ _ => along_requestToken _ _ _

/-- The process starts. -/
theorem related_boot [RuleSaves R] (w : World) : R w (w.boot env) := by
  have hboot : w.boot env = after (defaultRedactionRule env) w := by
    unfold World.boot after
    cases defaultRedactionRule env w <;> rfl
  have halong : Along R (defaultRedactionRule env) := by
    refine Along.bind Along.get fun w => ?_
    cases w.redactionRuleStore.live.values.find? fun r => r.name = standardRule.name with
    | some rule => exact Along.pure
    | none => exact Along.bind along_now fun _ => along_createRedactionRule _ _ _
  rw [hboot]
  exact halong w

end

/-! ## The policies -/

/-- No policy is stored or changed. -/
def PoliciesKept (w w' : World) : Prop := w'.policyStore = w.policyStore

instance : Everyday PoliciesKept where
  refl _ := rfl
  trans _ _ _ h h' := Eq.trans h' h
  logged _ _ _ _ _ := rfl
  breaker _ _ := rfl
  anomaly _ _ := rfl
  endpoints _ _ := rfl
  identities _ _ _ := rfl
  rules _ _ _ := rfl
  requests _ _ _ _ := rfl

theorem policiesKept_tokenStore_save (t : Token) : Along PoliciesKept (TokenStore.save env t) :=
  along_execute (along_saveRecord fun _ _ _ => rfl)

theorem IssueFrame.policiesKept_resume (frame : IssueFrame) :
    Along PoliciesKept (frame.resume env) :=
  Along.bind along_draw fun _ => Along.bind (policiesKept_tokenStore_save _) fun _ => Along.pure

theorem policiesKept_revokeToken (tokenId : String) (reasonCode : RevocationReason) (now : Int)
    (actor : Option String) :
    Along PoliciesKept (revokeToken env tokenId reasonCode now actor) :=
  along_revokeToken (fun _ _ _ _ => .inl fun _ _ => policiesKept_tokenStore_save _) _ _ _ _

end Ambit
