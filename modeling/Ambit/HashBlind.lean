import Ambit.HashView

/-! The operations and the calls, started in two states that differ only in secret hashes. -/

namespace Ambit

open Effect

variable {env : Env} {α β γ : Type}

/-- What the operation returns and does depends on no hash. -/
abbrev HashBlind (x : Op α) : Prop := Alike World.unhashed id x x

theorem except_cases {f : α → γ} {r r' : Except Err α} (h : r.map f = r'.map f) :
    (∃ err, r = .error err ∧ r' = .error err) ∨ ∃ a b, r = .ok a ∧ r' = .ok b ∧ f a = f b := by
  cases r with
  | error err =>
    cases r' with
    | error err' =>
      cases h
      exact .inl ⟨err, rfl, rfl⟩
    | ok => cases h
  | ok a =>
    cases r' with
    | error => cases h
    | ok b => exact .inr ⟨a, b, rfl, rfl, Except.ok.inj h⟩

theorem option_cases {f : α → γ} {o o' : Option α} (h : o.map f = o'.map f) :
    (o = none ∧ o' = none) ∨ ∃ a b, o = some a ∧ o' = some b ∧ f a = f b := by
  cases o with
  | none =>
    cases o' with
    | none => exact .inl ⟨rfl, rfl⟩
    | some => cases h
  | some a =>
    cases o' with
    | none => cases h
    | some b => exact .inr ⟨a, b, rfl, rfl, Option.some.inj h⟩

/-! ## Issuance -/

theorem hashBlind_checkPolicy {request : TokenRequest} {policyId : String} {hasPolicyStore : Bool} :
    HashBlind (checkPolicy env request policyId hasPolicyStore) := by
  refine Alike.bind_id (Alike.throwIf Iff.rfl) fun _ => ?_
  refine Alike.bind_id (alike_policyStore_get policyId) fun found => ?_
  cases found with
  | none => exact Alike.throw
  | some policy =>
    exact Alike.bind_id (Alike.throwIf Iff.rfl) fun _ => Alike.throwIf Iff.rfl

theorem capExpiry_unhashed {parent parent' : Option Token}
    (h : parent.map Token.unhashed = parent'.map Token.unhashed) (expiresAt : Date) :
    capExpiry expiresAt parent = capExpiry expiresAt parent' := by
  rcases option_cases h with ⟨rfl, rfl⟩ | ⟨t, t', rfl, rfl, ht⟩
  · rfl
  · have hexpiry : t.expiresAt = t'.expiresAt := (congrArg Token.expiresAt ht :)
    rw [capExpiry, capExpiry, hexpiry]

theorem hashBlind_issueToken {request : TokenRequest} {hasPolicyStore : Bool} :
    HashBlind (issueToken env request hasPolicyStore) := by
  refine Alike.bind_id (Alike.throwIf Iff.rfl) fun _ => ?_
  refine Alike.bind_id (Alike.throwIf Iff.rfl) fun _ => ?_
  refine Alike.bind_id ?_ fun _ => ?_
  · cases truthy request.policyId with
    | none => exact Alike.pure rfl
    | some policyId => exact hashBlind_checkPolicy
  refine Alike.bind_id alike_now fun issuedAt => ?_
  refine Alike.bind (f := Option.map Token.unhashed) ?_ fun parent parent' hparent => ?_
  · cases truthy request.parentTokenId with
    | none => exact Alike.pure rfl
    | some parentTokenId => exact alike_tokenStore_get parentTokenId
  rw [capExpiry_unhashed hparent]
  exact Alike.bind_id (alike_draw _) fun secret => Alike.bind_id (alike_draw _) fun salt =>
    Alike.pure rfl

theorem IssueFrame.alike_resume {f f' : IssueFrame} (h : f.unhashed = f'.unhashed) :
    Alike World.unhashed IssuedToken.unhashed (f.resume env) (f'.resume env) := by
  obtain ⟨request, issuedAt, expiresAt, secret, salt⟩ := f
  obtain ⟨request', issuedAt', expiresAt', secret', salt'⟩ := f'
  obtain ⟨rfl, rfl, rfl, rfl, -⟩ := IssueFrame.mk.inj h
  refine Alike.bind_id (alike_draw _) fun i => ?_
  exact Alike.bind_id (alike_tokenStore_save rfl) fun _ => Alike.pure rfl

/-! ## The gateway -/

theorem hashBlind_denyEnforcement {tokenId subject action : String} {now : Int}
    {reasonCode : EnforcementDenialReason} {message : String} :
    HashBlind (denyEnforcement env tokenId subject action now reasonCode message) :=
  Alike.bind_id (alike_auditRecord _ _) fun _ => Alike.pure rfl

theorem alike_enforceToken (tokenId providedSecret action : String) (now : Int) :
    Alike World.unhashed (Progress.map EnforceFrame.unhashed id)
      (enforceToken env tokenId providedSecret action now)
      (enforceToken env tokenId providedSecret action now) := by
  refine Alike.bind (Alike.attempt (alike_tokenStore_get tokenId)) fun r r' h => ?_
  rcases except_cases h with ⟨err, rfl, rfl⟩ | ⟨o, o', rfl, rfl, ho⟩
  · cases err with
    | circuitOpen =>
      exact Alike.bind_id hashBlind_denyEnforcement fun _ => Alike.pure rfl
    | _ => exact Alike.throw
  · rcases option_cases ho with ⟨rfl, rfl⟩ | ⟨t, t', rfl, rfl, ht⟩
    · exact Alike.bind_id hashBlind_denyEnforcement fun _ => Alike.pure rfl
    · refine Alike.pure (congrArg Progress.awaiting ?_)
      show EnforceFrame.mk _ _ _ _ t.unhashed = ⟨_, _, _, _, t'.unhashed⟩
      rw [ht]

theorem EnforceFrame.alike_resume {f f' : EnforceFrame} (h : f.unhashed = f'.unhashed)
    (hcheck : f.possessed env = f'.possessed env) :
    Alike World.unhashed id (f.resume env) (f'.resume env) := by
  obtain ⟨tokenId, secret, action, now, t⟩ := f
  obtain ⟨tokenId', secret', action', now', t'⟩ := f'
  obtain ⟨rfl, rfl, rfl, rfl, ht⟩ := EnforceFrame.mk.inj h
  have hid : t.id = t'.id := (congrArg Token.id ht :)
  have hsubject : t.subject = t'.subject := (congrArg Token.subject ht :)
  have hdecide : decide env t action now = decide env t' action now :=
    (congrArg (fun t => decide env t action now) ht :)
  simp only [EnforceFrame.resume, hcheck, hid, hsubject, hdecide]
  refine Alike.ite Iff.rfl hashBlind_denyEnforcement ?_
  cases decide env t' action now with
  | allowed => exact Alike.bind_id (alike_auditRecord _ _) fun _ => Alike.pure rfl
  | denied => exact hashBlind_denyEnforcement

/-! ## Revocation -/

theorem values_unhashed {w w' : World} (h : w.unhashed = w'.unhashed) :
    w.tokenStore.live.values.map Token.unhashed = w'.tokenStore.live.values.map Token.unhashed := by
  have hvalues := World.agree h fun u => u.tokenStore.live.values
  simpa [World.unhashed, Journal.map] using hvalues

theorem length_values_unhashed {w w' : World} (h : w.unhashed = w'.unhashed) :
    w.tokenStore.live.values.length = w'.tokenStore.live.values.length := by
  simpa using congrArg List.length (values_unhashed h)

theorem childrenOf_unhashed {w w' : World} (h : w.unhashed = w'.unhashed) (parentId : String) :
    (childrenOf w parentId).map Token.unhashed = (childrenOf w' parentId).map Token.unhashed := by
  have hfilter := congrArg (List.filter fun t => t.parentTokenId = some parentId) (values_unhashed h)
  rw [List.filter_map, List.filter_map] at hfilter
  exact hfilter

theorem hashBlind_cascadeRevokeAux {now : Int} {actor : Option String} {fuel : ℕ}
    {parentId : String} : HashBlind (cascadeRevokeAux env now actor fuel parentId) := by
  induction fuel generalizing parentId with
  | zero => exact Alike.pure rfl
  | succ fuel ih =>
    refine Alike.bind Alike.get fun w w' h => ?_
    refine Alike.forM (fun t t' ht => ?_) (childrenOf_unhashed h parentId)
    have hid : t.id = t'.id := (congrArg Token.id ht :)
    have hsubject : t.subject = t'.subject := (congrArg Token.subject ht :)
    have hstatus : t.status = t'.status := (congrArg Token.status ht :)
    have hrevoked := congrArg (Token.revoke · now .parentRevoked) ht
    rw [hid, hsubject]
    refine Alike.ite (by rw [hstatus]) ?_ (Alike.pure rfl)
    exact Alike.bind_id (alike_tokenStore_save hrevoked) fun _ =>
      Alike.bind_id (alike_auditRecord _ _) fun _ => ih

theorem hashBlind_cascadeRevoke {parentId : String} {now : Int} {actor : Option String} :
    HashBlind (cascadeRevoke env parentId now actor) := by
  refine Alike.bind Alike.get fun w w' h => ?_
  rw [length_values_unhashed h]
  exact hashBlind_cascadeRevokeAux

theorem alike_revokeToken (tokenId : String) (reasonCode : RevocationReason) (now : Int)
    (actor : Option String) : Alike World.unhashed Token.unhashed
      (revokeToken env tokenId reasonCode now actor) (revokeToken env tokenId reasonCode now actor) := by
  refine Alike.bind (alike_tokenStore_get tokenId) fun o o' h => ?_
  rcases option_cases h with ⟨rfl, rfl⟩ | ⟨t, t', rfl, rfl, ht⟩
  · exact Alike.throw
  · have hsubject : t.subject = t'.subject := (congrArg Token.subject ht :)
    have hrevoked := congrArg (Token.revoke · now reasonCode) ht
    simp only [hsubject]
    exact Alike.bind_id (alike_tokenStore_save hrevoked) fun _ =>
      Alike.bind_id (alike_auditRecord _ _) fun _ =>
        Alike.bind_id hashBlind_cascadeRevoke fun _ => Alike.pure hrevoked

/-! ## Lineage -/

theorem alike_lineageChain (fuel : ℕ) {current current' : Token} {chain chain' : List Token}
    (hcurrent : current.unhashed = current'.unhashed)
    (hchain : chain.map Token.unhashed = chain'.map Token.unhashed) :
    Alike World.unhashed (Option.map (List.map Token.unhashed))
      (lineageChain env fuel current chain) (lineageChain env fuel current' chain') := by
  induction fuel generalizing current current' chain chain' with
  | zero => exact Alike.pure rfl
  | succ fuel ih =>
    have hparent : current.parentTokenId = current'.parentTokenId :=
      (congrArg Token.parentTokenId hcurrent :)
    simp only [lineageChain, hparent]
    cases truthy current'.parentTokenId with
    | none => exact Alike.pure (congrArg some hchain)
    | some parentTokenId =>
      refine Alike.bind (alike_tokenStore_get parentTokenId) fun o o' h => ?_
      rcases option_cases h with ⟨rfl, rfl⟩ | ⟨t, t', rfl, rfl, ht⟩
      · exact Alike.pure (congrArg some hchain)
      · refine ih ht ?_
        rw [List.map_cons, List.map_cons, ht, hchain]

theorem lineageOrigin_unhashed {entries : List AuditEntryInput} {root root' : Token}
    (h : root.unhashed = root'.unhashed) :
    lineageOrigin entries root = lineageOrigin entries root' :=
  (congrArg (lineageOrigin entries) h :)

theorem alike_getTokenLineage (fuel : ℕ) (tokenId : String) :
    Alike World.unhashed (Option.map TokenLineage.unhashed)
      (getTokenLineage env fuel tokenId) (getTokenLineage env fuel tokenId) := by
  refine Alike.bind (alike_tokenStore_get tokenId) fun o o' h => ?_
  rcases option_cases h with ⟨rfl, rfl⟩ | ⟨t, t', rfl, rfl, ht⟩
  · exact Alike.throw
  · refine Alike.bind (alike_lineageChain fuel ht (by rw [List.map_singleton, List.map_singleton, ht]))
      fun o o' h => ?_
    rcases option_cases h with ⟨rfl, rfl⟩ | ⟨chain, chain', rfl, rfl, hchain⟩
    · exact Alike.pure rfl
    · refine Alike.bind Alike.get fun w w' h => Alike.pure (congrArg some ?_)
      have hentries : w.auditLog.entries = w'.auditLog.entries :=
        World.agree h fun u => u.auditLog.entries
      have hroot : (chain.headD t).unhashed = (chain'.headD t').unhashed := by
        cases chain with
        | nil =>
          obtain rfl : chain' = [] := by simpa using hchain.symm
          exact ht
        | cons root rest =>
          cases chain' with
          | nil => cases hchain
          | cons root' rest' => exact (List.cons.inj hchain).1
      rw [hentries, lineageOrigin_unhashed hroot]
      show TokenLineage.mk (chain.map Token.unhashed) _ = ⟨chain'.map Token.unhashed, _⟩
      rw [hchain]

/-! ## Requests -/

theorem hashBlind_checkAnomaly {subject : String} {scope : List String} {now : Int} :
    HashBlind (checkAnomaly env subject scope now) := by
  refine Alike.bind Alike.get fun w w' h => ?_
  have hdetector : w.anomalyDetector = w'.anomalyDetector := World.agree h World.anomalyDetector
  rw [hdetector]
  obtain ⟨result, detector⟩ := w'.anomalyDetector.check env.anomaly subject scope now
  exact Alike.bind_id (Alike.set (World.agree h fun u => { u with anomalyDetector := detector }))
    fun _ => Alike.pure rfl

theorem hashBlind_submitRequest {request : SubmittedRequest} {primaryApprover : Option String}
    {now : Int} : HashBlind (submitRequest env request primaryApprover now) := by
  refine Alike.bind_id (alike_draw _) fun i => ?_
  refine Alike.bind_id (alike_requestStore_save _) fun _ => ?_
  refine Alike.bind_id (alike_auditRecord _ _) fun _ => ?_
  refine Alike.bind_id hashBlind_checkAnomaly fun anomaly => ?_
  exact Alike.bind_id (Alike.ite Iff.rfl (alike_auditRecord _ _) (Alike.pure rfl)) fun _ =>
    Alike.pure rfl

theorem hashBlind_requestToken {request : SubmittedRequest} {primaryApprover : Option String}
    {now : Int} : HashBlind (requestToken env request primaryApprover now) := by
  refine Alike.bind Alike.get fun w w' h => ?_
  have hexisting : existingRequest w request = existingRequest w' request :=
    World.agree h fun u => existingRequest u request
  rw [hexisting]
  cases existingRequest w' request with
  | none => exact hashBlind_submitRequest
  | some existing => exact Alike.pure rfl

theorem hashBlind_getPending {requestId verb : String} : HashBlind (getPending requestId verb) := by
  refine Alike.bind_id (alike_requestStore_get requestId) fun found => ?_
  cases found with
  | none => exact Alike.throw
  | some pending => exact Alike.bind_id (Alike.throwIf Iff.rfl) fun _ => Alike.pure rfl

theorem hashBlind_assertEligibleDecider {pending : PendingRequest} {approver action : String}
    {now : Int} : HashBlind (assertEligibleDecider env pending approver action now) :=
  Alike.ite Iff.rfl (Alike.pure rfl) (Alike.bind_id (alike_auditRecord _ _) fun _ => Alike.throw)

theorem alike_catchApprovalFailure {f : α → γ} {x y : Op α} {input : ApprovalInput}
    {pending : PendingRequest} (h : Alike World.unhashed f x y) :
    Alike World.unhashed f (catchApprovalFailure env input pending x)
      (catchApprovalFailure env input pending y) := by
  refine Alike.bind (Alike.attempt h) fun r r' hr => ?_
  rcases except_cases hr with ⟨err, rfl, rfl⟩ | ⟨a, b, rfl, rfl, hab⟩
  · refine Alike.bind_id ?_ fun _ => Alike.throw
    cases err.approvalFailure with
    | none => exact Alike.pure rfl
    | some message => exact alike_auditRecord _ _
  · exact Alike.pure hab

theorem hashBlind_approveRequest {input : ApprovalInput} :
    HashBlind (approveRequest env input) := by
  refine Alike.bind_id hashBlind_getPending fun pending => ?_
  refine Alike.bind_id hashBlind_assertEligibleDecider fun _ => ?_
  exact Alike.bind_id (alike_catchApprovalFailure hashBlind_issueToken) fun issue => Alike.pure rfl

theorem ApproveFrame.alike_resume {f f' : ApproveFrame} (h : f.unhashed = f'.unhashed) :
    Alike World.unhashed Token.unhashed (f.resume env) (f'.resume env) := by
  obtain ⟨input, pending, issue⟩ := f
  obtain ⟨input', pending', issue'⟩ := f'
  obtain ⟨rfl, rfl, hissue⟩ := ApproveFrame.mk.inj h
  refine Alike.bind (alike_catchApprovalFailure (IssueFrame.alike_resume hissue))
    fun issued issued' hissued => ?_
  obtain ⟨token, secret⟩ := issued
  obtain ⟨token', secret'⟩ := issued'
  obtain ⟨htoken, rfl⟩ := IssuedToken.mk.inj hissued
  have hid : token.id = token'.id := (congrArg Token.id htoken :)
  simp only [hid]
  exact Alike.bind_id (alike_requestStore_save _) fun _ =>
    Alike.bind_id (alike_auditRecord _ _) fun _ => Alike.pure htoken

theorem hashBlind_denyRequest {requestId approver : String} {reasonCode : DenialReason} {now : Int} :
    HashBlind (denyRequest env requestId approver reasonCode now) := by
  refine Alike.bind_id hashBlind_getPending fun pending => ?_
  refine Alike.bind_id hashBlind_assertEligibleDecider fun _ => ?_
  exact Alike.bind_id (alike_requestStore_save _) fun _ => alike_auditRecord _ _

theorem hashBlind_checkRequestTimeout {requestId : String} {decisionWindowMs : JsNumber}
    {backupApprover : Option String} {now : Int} :
    HashBlind (checkRequestTimeout env requestId decisionWindowMs backupApprover now) := by
  unfold checkRequestTimeout
  cases truthy backupApprover with
  | none => exact Alike.pure rfl
  | some backup =>
    refine Alike.bind_id (alike_requestStore_get requestId) fun found => ?_
    cases found with
    | none => exact Alike.pure rfl
    | some pending =>
      exact Alike.ite Iff.rfl (Alike.bind_id (alike_requestStore_save _) fun _ =>
        alike_auditRecord _ _) (Alike.pure rfl)

theorem hashBlind_claimTokenSecret {requestId requestingSubject : String} {now : Int} :
    HashBlind (claimTokenSecret env requestId requestingSubject now) := by
  refine Alike.bind_id (alike_requestStore_get requestId) fun found => ?_
  cases found with
  | none => exact Alike.throw
  | some pending =>
    refine Alike.ite Iff.rfl (Alike.bind_id (alike_auditRecord _ _) fun _ => Alike.throw) ?_
    split
    · exact Alike.bind_id (alike_requestStore_save _) fun _ =>
        Alike.bind_id (alike_auditRecord _ _) fun _ => Alike.pure rfl
    · exact Alike.throw
    · exact Alike.throw

/-! ## Delegation -/

theorem hashBlind_denyDelegation {input : DelegationInput} {reasonCode : DelegationDenialReason} :
    HashBlind (denyDelegation env input reasonCode) :=
  Alike.bind_id (alike_auditRecord _ _) fun _ => Alike.pure rfl

theorem alike_delegateToken {input : DelegationInput} :
    Alike World.unhashed (Progress.map DelegateFrame.unhashed DelegationDecision.unhashed)
      (delegateToken env input) (delegateToken env input) := by
  refine Alike.bind (Alike.attempt (alike_tokenStore_get input.parentTokenId)) fun r r' h => ?_
  rcases except_cases h with ⟨err, rfl, rfl⟩ | ⟨o, o', rfl, rfl, ho⟩
  · cases err with
    | circuitOpen => exact Alike.bind_id hashBlind_denyDelegation fun _ => Alike.pure rfl
    | _ => exact Alike.throw
  · rcases option_cases ho with ⟨rfl, rfl⟩ | ⟨t, t', rfl, rfl, ht⟩
    · exact Alike.bind_id hashBlind_denyDelegation fun _ => Alike.pure rfl
    · exact Alike.pure (congrArg (fun t => Progress.awaiting (DelegateFrame.verifying input t)) ht)

theorem alike_catchCircuitOpen {f : α → γ} {r r' : Except Err α} {input : DelegationInput}
    {k k' : α → Op (Progress DelegateFrame DelegationDecision)} (hr : r.map f = r'.map f)
    (hk : ∀ a b, f a = f b → Alike World.unhashed
      (Progress.map DelegateFrame.unhashed DelegationDecision.unhashed) (k a) (k' b)) :
    Alike World.unhashed (Progress.map DelegateFrame.unhashed DelegationDecision.unhashed)
      (catchCircuitOpen env input r k) (catchCircuitOpen env input r' k') := by
  rcases except_cases hr with ⟨err, rfl, rfl⟩ | ⟨a, b, rfl, rfl, hab⟩
  · cases err with
    | circuitOpen => exact Alike.bind_id hashBlind_denyDelegation fun _ => Alike.pure rfl
    | _ => exact Alike.throw
  · exact hk a b hab

theorem delegationDenial_unhashed {input : DelegationInput} {parent parent' : Token}
    (hparent : parent.unhashed = parent'.unhashed)
    (hcheck : verifyPassword env.toPlatform input.providedParentSecret parent.secretHash =
      verifyPassword env.toPlatform input.providedParentSecret parent'.secretHash) :
    delegationDenial env input parent = delegationDenial env input parent' := by
  have hstatus : parent.status = parent'.status := (congrArg Token.status hparent :)
  have hexpiry : parent.expiresAt = parent'.expiresAt := (congrArg Token.expiresAt hparent :)
  have hscope : parent.scope = parent'.scope := (congrArg Token.scope hparent :)
  simp only [delegationDenial, hcheck, hstatus, hexpiry, hscope]

theorem DelegateFrame.alike_resume {f f' : DelegateFrame} (h : f.unhashed = f'.unhashed)
    (hcheck : ∀ input parent parent', f = .verifying input parent → f' = .verifying input parent' →
      verifyPassword env.toPlatform input.providedParentSecret parent.secretHash =
        verifyPassword env.toPlatform input.providedParentSecret parent'.secretHash) :
    Alike World.unhashed (Progress.map DelegateFrame.unhashed DelegationDecision.unhashed)
      (f.resume env) (f'.resume env) := by
  cases f with
  | verifying input parent =>
    cases f' with
    | verifying input' parent' =>
      obtain ⟨rfl, hparent⟩ := DelegateFrame.verifying.inj h
      simp only [DelegateFrame.resume,
        delegationDenial_unhashed hparent (hcheck input parent parent' rfl rfl)]
      cases delegationDenial env input parent' with
      | some reasonCode => exact Alike.bind_id hashBlind_denyDelegation fun _ => Alike.pure rfl
      | none =>
        refine Alike.bind (Alike.attempt hashBlind_issueToken) fun r r' hr => ?_
        refine alike_catchCircuitOpen hr fun issue issue' hissue => ?_
        obtain rfl : issue = issue' := hissue
        exact Alike.pure rfl
    | issuing => cases h
  | issuing input issue =>
    cases f' with
    | verifying => cases h
    | issuing input' issue' =>
      obtain ⟨rfl, hissue⟩ := DelegateFrame.issuing.inj h
      refine Alike.bind (Alike.attempt (IssueFrame.alike_resume hissue)) fun r r' hr => ?_
      refine alike_catchCircuitOpen hr fun issued issued' hissued => ?_
      obtain ⟨token, secret⟩ := issued
      obtain ⟨token', secret'⟩ := issued'
      obtain ⟨htoken, rfl⟩ := IssuedToken.mk.inj hissued
      have hid : token.id = token'.id := (congrArg Token.id htoken :)
      simp only [hid]
      exact Alike.bind_id (alike_auditRecord _ _) fun _ => Alike.pure
        (congrArg (fun t => Progress.returned (DelegationDecision.approved t secret)) htoken)

/-! ## Calls downstream -/

theorem AccessLoop.hashBlind_record {loop : AccessLoop} {outcome : AccessOutcome} :
    HashBlind (loop.record env outcome) := alike_auditRecord _ _

theorem AccessLoop.hashBlind_next {loop : AccessLoop} {err : Err} :
    HashBlind (loop.next env err) := by
  refine Alike.ite Iff.rfl ?_ ?_
  · refine Alike.bind Alike.get fun w w' h => ?_
    have hendpoints : w.mockEndpoints = w'.mockEndpoints := World.agree h World.mockEndpoints
    rw [hendpoints]
    exact Alike.pure rfl
  · cases err with
    | endpointUnreachable => exact Alike.bind_id AccessLoop.hashBlind_record fun _ => Alike.pure rfl
    | _ => exact Alike.throw

theorem AccessLoop.hashBlind_failed {loop : AccessLoop} {err : Err} :
    HashBlind (loop.failed env err) :=
  Alike.ite Iff.rfl (Alike.pure rfl) AccessLoop.hashBlind_next

theorem hashBlind_accessAfter {input : AccessInput} {decision : EnforcementDecision} :
    HashBlind (accessAfter env input decision) := by
  cases decision with
  | denied => exact Alike.pure rfl
  | allowed =>
    refine Alike.bind (alike_tokenStore_get input.tokenId) fun o o' h => ?_
    rcases option_cases h with ⟨rfl, rfl⟩ | ⟨t, t', rfl, rfl, ht⟩
    · exact AccessLoop.hashBlind_next
    · have hsubject : t.subject = t'.subject := (congrArg Token.subject ht :)
      simp only [hsubject]
      exact AccessLoop.hashBlind_next

theorem Alike.of_hashBlind {x : Op α} (h : HashBlind x) (f : α → γ) :
    Alike World.unhashed f x x := Alike.mono h fun _ _ hab => congrArg f hab

theorem alike_accessMockEndpoint {input : AccessInput} :
    Alike World.unhashed (Progress.map AccessFrame.unhashed id)
      (accessMockEndpoint env input) (accessMockEndpoint env input) := by
  refine Alike.bind (alike_enforceToken _ _ _ _) fun p p' h => ?_
  cases p with
  | awaiting frame =>
    cases p' with
    | returned => cases h
    | awaiting frame' =>
      have hframe : frame.unhashed = frame'.unhashed := Progress.awaiting.inj h
      exact Alike.pure (congrArg (fun f => Progress.awaiting (AccessFrame.enforcing input f)) hframe)
  | returned decision =>
    cases p' with
    | awaiting => cases h
    | returned decision' =>
      obtain rfl : decision = decision' := Progress.returned.inj h
      exact Alike.of_hashBlind hashBlind_accessAfter _

theorem AccessFrame.alike_resume {downstream : Downstream} {f f' : AccessFrame}
    (h : f.unhashed = f'.unhashed)
    (hcheck : ∀ input e e', f = .enforcing input e → f' = .enforcing input e' →
      e.possessed env = e'.possessed env) :
    Alike World.unhashed (Progress.map AccessFrame.unhashed id)
      (f.resume env downstream) (f'.resume env downstream) := by
  cases f with
  | enforcing input e =>
    cases f' with
    | enforcing input' e' =>
      obtain ⟨rfl, he⟩ := AccessFrame.enforcing.inj h
      exact Alike.bind_id (EnforceFrame.alike_resume he (hcheck input e e' rfl rfl)) fun _ =>
        Alike.of_hashBlind hashBlind_accessAfter _
    | calling | sleeping => cases h
  | calling loop accepted =>
    cases f' with
    | calling =>
      cases h
      refine Alike.ite Iff.rfl ?_ (Alike.of_hashBlind AccessLoop.hashBlind_failed _)
      refine Alike.bind (Alike.attempt AccessLoop.hashBlind_record) fun r r' hr => ?_
      rcases except_cases hr with ⟨err, rfl, rfl⟩ | ⟨_, _, rfl, rfl, -⟩
      · exact Alike.of_hashBlind AccessLoop.hashBlind_failed _
      · exact Alike.pure rfl
    | enforcing | sleeping => cases h
  | sleeping loop lastError =>
    cases f' with
    | sleeping =>
      cases h
      exact Alike.of_hashBlind AccessLoop.hashBlind_next _
    | enforcing | calling => cases h

/-! ## Customer data -/

theorem hashBlind_denyCustomerAccess {input : CustomerAccessInput} {reasonCode : CustomerDenialReason}
    {message : String} : HashBlind (denyCustomerAccess env input reasonCode message) :=
  Alike.bind_id (alike_auditRecord _ _) fun _ => Alike.pure rfl

theorem hashBlind_customerDataAfter {input : CustomerAccessInput} {decision : EnforcementDecision} :
    HashBlind (customerDataAfter env input decision) := by
  cases decision with
  | denied => exact Alike.pure rfl
  | allowed =>
    unfold customerDataAfter
    cases env.customerRegistry input.customerId with
    | none => exact hashBlind_denyCustomerAccess
    | some customer =>
      refine Alike.bind Alike.get fun w w' h => ?_
      have hrules : w.redactionRuleStore = w'.redactionRuleStore :=
        World.agree h World.redactionRuleStore
      rw [hrules]
      cases w'.redactionRuleStore.live.get input.redactionRuleId with
      | none => exact hashBlind_denyCustomerAccess
      | some rule =>
        refine Alike.bind (alike_tokenStore_get input.tokenId) fun o o' h => ?_
        rcases option_cases h with ⟨rfl, rfl⟩ | ⟨t, t', rfl, rfl, ht⟩
        · exact Alike.bind_id (alike_auditRecord _ _) fun _ => Alike.pure rfl
        · have hsubject : t.subject = t'.subject := (congrArg Token.subject ht :)
          have hscope : t.scope = t'.scope := (congrArg Token.scope ht :)
          simp only [hsubject, hscope]
          exact Alike.bind_id (alike_auditRecord _ _) fun _ => Alike.pure rfl

theorem alike_accessCustomerData {input : CustomerAccessInput} :
    Alike World.unhashed (Progress.map CustomerAccessFrame.unhashed id)
      (accessCustomerData env input) (accessCustomerData env input) := by
  refine Alike.bind (alike_enforceToken _ _ _ _) fun p p' h => ?_
  cases p with
  | awaiting frame =>
    cases p' with
    | returned => cases h
    | awaiting frame' =>
      have hframe : frame.unhashed = frame'.unhashed := Progress.awaiting.inj h
      exact Alike.pure (congrArg (fun f => Progress.awaiting (CustomerAccessFrame.mk input f)) hframe)
  | returned decision =>
    cases p' with
    | awaiting => cases h
    | returned decision' =>
      obtain rfl : decision = decision' := Progress.returned.inj h
      exact Alike.bind_id hashBlind_customerDataAfter fun _ => Alike.pure rfl

theorem CustomerAccessFrame.alike_resume {f f' : CustomerAccessFrame} (h : f.unhashed = f'.unhashed)
    (hcheck : f.enforce.possessed env = f'.enforce.possessed env) :
    Alike World.unhashed id (f.resume env) (f'.resume env) := by
  obtain ⟨input, enforce⟩ := f
  obtain ⟨input', enforce'⟩ := f'
  obtain ⟨rfl, henforce⟩ := CustomerAccessFrame.mk.inj h
  exact Alike.bind_id (EnforceFrame.alike_resume henforce hcheck) fun _ => hashBlind_customerDataAfter

/-! ## Policies and redaction rules -/

theorem PolicyInput.hashBlind_validate {input : PolicyInput} : HashBlind input.validate :=
  Alike.bind_id (Alike.throwIf Iff.rfl) fun _ =>
    Alike.bind_id (Alike.throwIf Iff.rfl) fun _ => Alike.throwIf Iff.rfl

theorem hashBlind_createPolicy {input : PolicyInput} {authoredBy : String} {now : Int} :
    HashBlind (createPolicy env input authoredBy now) := by
  refine Alike.bind_id PolicyInput.hashBlind_validate fun _ => ?_
  refine Alike.bind_id (alike_draw _) fun id => ?_
  exact Alike.bind_id (alike_policyStore_save _) fun _ =>
    Alike.bind_id (alike_auditRecord _ _) fun _ => Alike.pure rfl

theorem hashBlind_modifyPolicy {policyId : String} {changes : PolicyChanges} {authoredBy : String}
    {now : Int} : HashBlind (modifyPolicy env policyId changes authoredBy now) := by
  refine Alike.bind_id (alike_policyStore_get policyId) fun found => ?_
  cases found with
  | none => exact Alike.throw
  | some existing =>
    refine Alike.bind_id PolicyInput.hashBlind_validate fun _ => ?_
    exact Alike.bind_id (alike_policyStore_save _) fun _ =>
      Alike.bind_id (alike_auditRecord _ _) fun _ => Alike.pure rfl

theorem RedactionRuleInput.hashBlind_validate {input : RedactionRuleInput} :
    HashBlind input.validate := by
  refine Alike.bind_id (Alike.throwIf Iff.rfl) fun _ => ?_
  refine Alike.bind_id (Alike.throwIf Iff.rfl) fun _ => ?_
  cases RedactionRuleInput.fieldError input.sensitiveFields with
  | none => exact Alike.pure rfl
  | some err => exact Alike.throw

theorem hashBlind_createRedactionRule {input : RedactionRuleInput} {authoredBy : String} {now : Int} :
    HashBlind (createRedactionRule env input authoredBy now) := by
  refine Alike.bind_id RedactionRuleInput.hashBlind_validate fun _ => ?_
  refine Alike.bind_id (alike_draw _) fun id => ?_
  exact Alike.bind_id (alike_redactionRuleStore_save _) fun _ =>
    Alike.bind_id (alike_auditRecord _ _) fun _ => Alike.pure rfl

theorem hashBlind_defaultRedactionRule : HashBlind (defaultRedactionRule env) := by
  refine Alike.bind Alike.get fun w w' h => ?_
  have hrules : w.redactionRuleStore = w'.redactionRuleStore :=
    World.agree h World.redactionRuleStore
  rw [hrules]
  cases w'.redactionRuleStore.live.values.find? fun r => r.name = standardRule.name with
  | some rule => exact Alike.pure rfl
  | none => exact Alike.bind_id alike_now fun _ => hashBlind_createRedactionRule

/-! ## Agents -/

theorem findBySubject_unhashed {w w' : World} (h : w.unhashed = w'.unhashed) (subject : String) :
    (findBySubject w subject).map AgentIdentity.unhashed =
      (findBySubject w' subject).map AgentIdentity.unhashed := by
  have hfind : ∀ u : World, findBySubject u.unhashed subject =
      (findBySubject u subject).map AgentIdentity.unhashed := by
    intro u
    have hvalues : u.unhashed.agentIdentityStore.live.values =
        u.agentIdentityStore.live.values.map AgentIdentity.unhashed := OrderedMap.values_mapValues ..
    rw [findBySubject, hvalues, List.find?_map]
    rfl
  rw [← hfind w, ← hfind w', h]

theorem hashBlind_validateAgentIdentity {subject : String} :
    HashBlind (validateAgentIdentity subject) := by
  refine Alike.bind_id (Alike.throwIf Iff.rfl) fun _ => ?_
  refine Alike.bind Alike.get fun w w' h => Alike.throwIf ?_
  rcases option_cases (findBySubject_unhashed h subject) with ⟨hw, hw'⟩ | ⟨i, i', hw, hw', -⟩
  · rw [hw, hw']
  · simp [hw, hw']

theorem hashBlind_registerAgentIdentity {subject createdBy : String} {now : Int} :
    HashBlind (registerAgentIdentity env subject createdBy now) := by
  refine Alike.bind_id hashBlind_validateAgentIdentity fun _ => ?_
  exact Alike.bind_id (alike_draw _) fun id => Alike.bind_id (alike_draw _) fun secret =>
    Alike.bind_id (alike_draw _) fun salt => Alike.pure rfl

theorem RegisterFrame.alike_resume {f f' : RegisterFrame} (h : f.unhashed = f'.unhashed) :
    Alike World.unhashed (fun r => (r.1.unhashed, r.2)) (f.resume env) (f'.resume env) := by
  obtain ⟨subject, createdBy, now, id, secret, salt⟩ := f
  obtain ⟨subject', createdBy', now', id', secret', salt'⟩ := f'
  obtain ⟨rfl, rfl, rfl, rfl, rfl, -⟩ := RegisterFrame.mk.inj h
  exact Alike.bind_id (alike_agentIdentityStore_save rfl) fun _ =>
    Alike.bind_id (alike_auditRecord _ _) fun _ => Alike.pure rfl

theorem agentIdentityStore_get_unhashed {w w' : World} (h : w.unhashed = w'.unhashed) (id : String) :
    (w.agentIdentityStore.live.get id).map AgentIdentity.unhashed =
      (w'.agentIdentityStore.live.get id).map AgentIdentity.unhashed := by
  have hget := World.agree h fun u => u.agentIdentityStore.live.get id
  simpa [World.unhashed, Journal.map] using hget

theorem alike_authenticateAgent {credential : String} :
    Alike World.unhashed (Progress.map AuthenticateFrame.unhashed (Option.map AgentIdentity.unhashed))
      (authenticateAgent credential) (authenticateAgent credential) := by
  unfold authenticateAgent
  cases splitCredential credential with
  | none => exact Alike.pure rfl
  | some parts =>
    obtain ⟨id, secret⟩ := parts
    refine Alike.bind Alike.get fun w w' h => ?_
    rcases option_cases (agentIdentityStore_get_unhashed h id) with ⟨hw, hw'⟩ | ⟨i, i', hw, hw', hi⟩
    · rw [hw, hw']
      exact Alike.pure rfl
    · rw [hw, hw']
      exact Alike.pure (congrArg (fun i => Progress.awaiting (AuthenticateFrame.mk i secret)) hi)

theorem AuthenticateFrame.resume_unhashed {f f' : AuthenticateFrame} (h : f.unhashed = f'.unhashed)
    (hcheck : verifyPassword env.toPlatform f.secret f.identity.secretHash =
      verifyPassword env.toPlatform f'.secret f'.identity.secretHash) :
    (f.resume env).map AgentIdentity.unhashed = (f'.resume env).map AgentIdentity.unhashed := by
  obtain ⟨identity, secret⟩ := f
  obtain ⟨identity', secret'⟩ := f'
  obtain ⟨hidentity, rfl⟩ := AuthenticateFrame.mk.inj h
  simp only [AuthenticateFrame.resume, hcheck]
  split
  · exact congrArg some hidentity
  · rfl

end Ambit
