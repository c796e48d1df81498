import Ambit.Refinement
import Ambit.Untouched

/-! Policies really bound what is issued: a token that was approved under a policy stays within the
policy as it was at the approval, and so does everything delegated from it. -/

namespace Ambit

open Effect

/-- What is done with policies, requests and tokens, one thing at a time. Numbers come from request
bodies, and JSON has no NaN. -/
inductive OfficeAction where
  | createPolicy (input : PolicyInput) (hnumber : input.maxTtlSeconds ≠ .nan) (authoredBy : String)
      (now : Int)
  | modifyPolicy (policyId : String) (changes : PolicyChanges)
      (hnumber : changes.maxTtlSeconds ≠ some .nan) (authoredBy : String) (now : Int)
  | submit (request : SubmittedRequest) (hnumber : request.ttlSeconds ≠ .nan)
      (primaryApprover : Option String) (now : Int)
  | approve (input : ApprovalInput)
  | delegate (input : DelegationInput)
  | revoke (tokenId : String) (reasonCode : RevocationReason) (now : Int) (actor : Option String)
  | clock (t : Int)

section
variable (env : Env)

/-- What an action runs, from its start to its end. -/
def OfficeAction.run : OfficeAction → Op (Progress Frame Outcome)
  | .createPolicy input _ authoredBy now =>
    synchronously (Ambit.createPolicy env input authoredBy now) .policy
  | .modifyPolicy policyId changes _ authoredBy now =>
    synchronously (Ambit.modifyPolicy env policyId changes authoredBy now) .policy
  | .submit request _ primaryApprover now =>
    synchronously (requestToken env request primaryApprover now) .request
  | .approve input => synchronously (approveAtOnce env input) .token
  | .delegate input => return (← delegateAtOnce env input).map .delegate .delegation
  | .revoke tokenId reasonCode now actor =>
    synchronously (revokeToken env tokenId reasonCode now actor) .token
  | .clock t => synchronously (modify fun w => { w with clock := t }) fun _ => .done

/-- Every run of these actions, on a server that starts on an empty data directory. -/
def officeMachine : Machine World OfficeAction where
  init := World.initial.boot env
  step w a := after (a.run env) w

end

/-- The actions that author a policy. -/
def OfficeAction.authors : OfficeAction → Bool
  | .createPolicy .. | .modifyPolicy .. => true
  | _ => false

/-- What `validate` promises of a policy. -/
structure Policy.Valid (policy : Policy) : Prop where
  name : isBlank policy.name = false
  allowedScope : policy.allowedScope ≠ []
  maxTtlSeconds : (JsNumber.finite 0).lt policy.maxTtlSeconds = true

/-- Of two numbers that are not NaN, one is at most the other. -/
theorem JsNumber.le_of_not_lt {a b : JsNumber} (ha : a ≠ .nan) (hb : b ≠ .nan)
    (h : b.lt a = false) : a.le b = true := by
  cases a <;> cases b <;> simp_all [JsNumber.lt, JsNumber.le]

theorem JsNumber.lt_of_not_le {a b : JsNumber} (ha : a ≠ .nan) (hb : b ≠ .nan)
    (h : a.le b = false) : b.lt a = true := by
  cases a <;> cases b <;> simp_all [JsNumber.lt, JsNumber.le]

theorem JsNumber.ne_nan_of_lt {a b : JsNumber} (h : a.lt b = true) : b ≠ .nan := by
  rintro rfl
  cases a <;> cases h

/-! ## Policies -/

variable {env : Env} {w : World}

/-- Every stored policy is valid. -/
def World.PoliciesValid (w : World) : Prop :=
  ∀ id policy, w.policyStore.live.get id = some policy → policy.Valid

theorem World.PoliciesValid.put (h : w.PoliciesValid) {policy : Policy} (hvalid : policy.Valid) :
    (w.putPolicy policy).PoliciesValid := by
  intro id found hfound
  simp only [World.putPolicy, Journal.save_live, OrderedMap.get_set] at hfound
  split at hfound
  · cases hfound
    exact hvalid
  · exact h id found hfound

theorem PolicyInput.wp_validate {input : PolicyInput} {Q : Except Err Unit → World → Prop}
    (hrefused : ∀ err, Q (.error err) w)
    (hvalid : isBlank input.name = false → input.allowedScope ≠ [] →
      input.maxTtlSeconds.le (.finite 0) = false → Q (.ok ()) w) : wp input.validate Q w := by
  refine wp_bind (wp_throwIf (fun _ => hrefused _) fun hname => ?_)
  refine wp_bind (wp_throwIf (fun _ => hrefused _) fun hscope => ?_)
  refine wp_throwIf (fun _ => hrefused _) fun hmax => hvalid ?_ hscope ?_
  · simpa using hname
  · simpa using hmax

/-- What authoring a policy does where the breaker is closed: it stores a valid policy, or throws
and changes nothing at all. -/
def Authored (w : World) (r : Except Err Policy) (w' : World) : Prop :=
  (w' = w ∧ r.isOk = false) ∨ ∃ policy, policy.Valid ∧ r = .ok policy ∧
    w'.policyStore = (w.putPolicy policy).policyStore

theorem createPolicy_authored (h : w.Sound env) (hflow : w.Flowing) (input : PolicyInput)
    (hnumber : input.maxTtlSeconds ≠ .nan) (authoredBy : String) (now : Int) :
    wp (createPolicy env input authoredBy now) (Authored w) w := by
  refine wp_bind (PolicyInput.wp_validate (fun err => .inl ⟨rfl, rfl⟩) fun hname hscope hmax => ?_)
  refine wp_bind (wp_draw (wp_bind ?_))
  have hdrawn : w.drawn.Flowing := hflow.of_breaker rfl
  refine PolicyStore.wp_save h.drawn (fun hrej => absurd hrej hdrawn.not_rejects) fun _ => ?_
  rw [hdrawn.accessed_eq]
  refine wp_bind (wp_auditRecord (h.drawn.putPolicy _) rfl (wp_pure (.inr ⟨_, ?_, rfl, rfl⟩)))
  exact ⟨hname, hscope, JsNumber.lt_of_not_le hnumber JsNumber.noConfusion hmax⟩

theorem modifyPolicy_authored (h : w.Sound env) (hflow : w.Flowing) (hvalid : w.PoliciesValid)
    (policyId : String) (changes : PolicyChanges) (hnumber : changes.maxTtlSeconds ≠ some .nan)
    (authoredBy : String) (now : Int) :
    wp (modifyPolicy env policyId changes authoredBy now) (Authored w) w := by
  refine wp_bind (PolicyStore.wp_get h (fun hrej => absurd hrej hflow.not_rejects) fun _ => ?_)
  rw [hflow.accessed_eq]
  cases hfound : w.policyStore.live.get policyId with
  | none => exact wp_throw (.inl ⟨rfl, rfl⟩)
  | some existing =>
    refine wp_bind (PolicyInput.wp_validate (fun err => .inl ⟨rfl, rfl⟩) fun hname hscope hmax => ?_)
    refine wp_bind (PolicyStore.wp_save h (fun hrej => absurd hrej hflow.not_rejects) fun _ => ?_)
    rw [hflow.accessed_eq]
    have hnan : changes.maxTtlSeconds.getD existing.maxTtlSeconds ≠ .nan := by
      cases hchange : changes.maxTtlSeconds with
      | none => exact JsNumber.ne_nan_of_lt (hvalid policyId existing hfound).maxTtlSeconds
      | some maxTtlSeconds =>
        rintro rfl
        exact hnumber hchange
    refine wp_bind (wp_auditRecord (h.putPolicy _) rfl (wp_pure (.inr ⟨_, ?_, rfl, rfl⟩)))
    exact ⟨hname, hscope, JsNumber.lt_of_not_le hnan JsNumber.noConfusion hmax⟩

/-! ## Issuance under a policy -/

/-- The policy is stored and admits the request. -/
def World.Permits (w : World) (policyId : String) (request : TokenRequest) : Prop :=
  ∃ policy, w.policyStore.live.get policyId = some policy ∧ request.scope ⊆ policy.allowedScope ∧
    policy.maxTtlSeconds.lt request.ttlSeconds = false

theorem wp_onOk {α : Type} {x : Op α} {P : Prop} (h : P) : wp x (fun r _ => OnOk (fun _ => P) r) w := by
  refine wp_any fun r w' => ?_
  cases r with
  | ok => exact h
  | error => trivial

theorem checkPolicy_permits (h : w.Sound env) (request : TokenRequest) (policyId : String)
    (hasPolicyStore : Bool) :
    wp (checkPolicy env request policyId hasPolicyStore)
      (fun r _ => OnOk (fun _ => w.Permits policyId request) r) w := by
  refine wp_bind (wp_throwIf (fun _ => trivial) fun _ => wp_bind ?_)
  refine PolicyStore.wp_get h (fun _ _ => trivial) fun _ => ?_
  cases hfound : w.policyStore.live.get policyId with
  | none => exact wp_throw trivial
  | some policy =>
    refine wp_bind (wp_throwIf (fun _ => trivial) fun hscope => ?_)
    refine wp_throwIf (fun _ => trivial) fun hmax => ⟨policy, hfound, not_not.mp hscope, ?_⟩
    simpa using hmax

theorem issueToken_permits (h : w.Sound env) (request : TokenRequest) (hasPolicyStore : Bool) :
    wp (issueToken env request hasPolicyStore) (fun r _ =>
      OnOk (fun _ => ∀ policyId ∈ truthy request.policyId, w.Permits policyId request) r) w := by
  refine wp_bind (wp_throwIf (fun _ => trivial) fun _ => ?_)
  refine wp_bind (wp_throwIf (fun _ => trivial) fun _ => wp_bind ?_)
  refine wp_mono (Q := fun r _ =>
    OnOk (fun _ => ∀ policyId ∈ truthy request.policyId, w.Permits policyId request) r) ?_ ?_
  · cases truthy request.policyId with
    | none => exact wp_pure fun policyId hpolicyId => by cases hpolicyId
    | some policyId =>
      refine wp_mono (checkPolicy_permits h request policyId hasPolicyStore) fun r w' hr => ?_
      cases r with
      | error => trivial
      | ok =>
        intro found hfound
        cases hfound
        exact hr
  intro r w' hr
  cases r with
  | error => trivial
  | ok => exact wp_onOk hr

/-- An approval that goes through is permitted by the policy that it names. -/
theorem approveAtOnce_permits (h : w.Sound env) (input : ApprovalInput) :
    wp (approveAtOnce env input) (fun r _ => OnOk (fun _ => ∃ pending,
      w.ledger.requests input.requestId = some pending ∧ ∀ policyId ∈ truthy input.policyId,
        w.Permits policyId (pending.tokenRequest input.policyId)) r) w := by
  refine wp_bind (wp_bind (wp_mono (getPending_spec input.requestId "approve") ?_))
  intro r w₁ ⟨hw, hr⟩
  obtain rfl := hw.symm
  cases r with
  | error => trivial
  | ok pending =>
    refine wp_bind (wp_mono (assertEligibleDecider_spec h pending input.approver _ _) ?_)
    intro r w₂ ⟨_, hr₂⟩
    cases r with
    | error => trivial
    | ok =>
      obtain rfl := hr₂.1.symm
      refine wp_bind (wp_bind (wp_attempt (wp_mono
        (issueToken_permits h (pending.tokenRequest input.policyId) true) ?_)))
      intro r w₃ hr₃
      cases r with
      | ok issue => exact wp_pure (wp_pure (wp_onOk ⟨pending, hr.1, hr₃⟩))
      | error err =>
        refine wp_bind (wp_any fun r w₄ => ?_)
        cases r with
        | ok => exact wp_throw trivial
        | error => trivial

/-! ## One action -/

theorem synchronously_run {α : Type} (op : Op α) (outcome : α → Outcome) (w : World) :
    after (synchronously op outcome) w = after op w ∧
      (result (synchronously op outcome) w).isOk = (result op w).isOk := by
  have hrun : wp (synchronously op outcome) (fun r w' =>
      w' = after op w ∧ r.isOk = (result op w).isOk) w := by
    refine wp_bind (wp_iff.mpr ?_)
    cases result op w with
    | ok => exact wp_pure ⟨rfl, rfl⟩
    | error => exact ⟨rfl, rfl⟩
  exact (wp_iff.mp hrun).imp id id

/-- The state between two actions. -/
structure OfficeSound (env : Env) (w : World) : Prop where
  world : w.Sound env
  linked : w.ledger.Linked env.toPlatform
  flowing : w.Flowing
  policies : w.PoliciesValid
  numbers : ∀ i r, w.ledger.requests i = some r → r.ttlSeconds ≠ .nan

/-- The approval of a stored request, by the action that approves it. -/
def OfficeAction.Approves (env : Env) (w : World) (a : OfficeAction) (pending : PendingRequest)
    (token : Token) (policyId : Option String) : Prop :=
  w.ledger.requests pending.id = some pending ∧ ∃ input, a = .approve input ∧
    input.requestId = pending.id ∧ input.policyId = policyId ∧
    result (approveAtOnce env input) w = .ok token

/-- What an event says of the action that it is. -/
def OfficeAction.Explains (env : Env) (w : World) (a : OfficeAction) : Event → Prop
  | .submitted r => r.ttlSeconds ≠ .nan
  | .approved pending token _ _ policyId => a.Approves env w pending token policyId
  | .restarted => False
  | _ => True

/-- **Each action is one event**, and leaves valid policies. -/
theorem OfficeAction.run_steps (h : OfficeSound env w) (a : OfficeAction) :
    ∃ e, w.Steps env e (after (a.run env) w) ∧ a.Explains env w e ∧
      (after (a.run env) w).PoliciesValid := by
  have hsame : ∀ {w' : World}, w'.policyStore = w.policyStore → w'.PoliciesValid := by
    intro w' hw' id policy hpolicy
    rw [hw'] at hpolicy
    exact h.policies id policy hpolicy
  have hauthored : ∀ {op : Op Policy}, Quietly env op (fun _ => True) → wp op (Authored w) w →
      ∀ outcome, ∃ e, w.Steps env e (after (synchronously op outcome) w) ∧ a.Explains env w e ∧
        (after (synchronously op outcome) w).PoliciesValid := by
    intro op hquiet hop outcome
    rw [(synchronously_run op outcome w).1]
    refine ⟨.noted, (wp_iff.mp (hquiet w h.world)).1.steps, trivial, ?_⟩
    rcases wp_iff.mp hop with ⟨hw, -⟩ | ⟨policy, hvalid, -, hstore⟩
    · rw [hw]
      exact h.policies
    · intro id found hfound
      rw [hstore] at hfound
      exact h.policies.put hvalid id found hfound
  cases a with
  | createPolicy input hnumber authoredBy now =>
    exact hauthored (createPolicy_quietly input authoredBy now)
      (createPolicy_authored h.world h.flowing input hnumber authoredBy now) _
  | modifyPolicy policyId changes hnumber authoredBy now =>
    exact hauthored (modifyPolicy_quietly policyId changes authoredBy now)
      (modifyPolicy_authored h.world h.flowing h.policies policyId changes hnumber authoredBy now) _
  | submit request hnumber primaryApprover now =>
    rw [OfficeAction.run, (synchronously_run _ _ w).1]
    have hkept : (after (requestToken env request primaryApprover now) w).PoliciesValid :=
      hsame (along_requestToken (R := PoliciesKept) request primaryApprover now w)
    rcases wp_iff.mp (requestToken_spec h.world request primaryApprover now) with
      ⟨hq, -⟩ | ⟨id, hstep, -⟩
    · exact ⟨.noted, hq.steps, trivial, hkept⟩
    · exact ⟨_, hstep, hnumber, hkept⟩
  | approve input =>
    rw [OfficeAction.run, (synchronously_run _ _ w).1]
    have hkept : (after (approveAtOnce env input) w).PoliciesValid :=
      hsame (along_approveAtOnce IssueFrame.policiesKept_resume input w)
    rcases wp_iff.mp (approveAtOnce_spec h.world input) with
      ⟨hq, -⟩ | ⟨pending, token, secret, hid, hstored, -, -, hstep, hok⟩
    · exact ⟨.noted, hq.steps, trivial, hkept⟩
    · exact ⟨_, hstep, ⟨hstored, input, rfl, hid.symm, rfl, hok⟩, hkept⟩
  | delegate input =>
    have hrun : wp (OfficeAction.run env (.delegate input)) (fun _ w' =>
        (w.Quiet env w' ∨ ∃ parent token, w.Steps env (.delegated parent token) w') ∧
          w'.policyStore = w.policyStore) w := by
      refine wp_bind (wp_mono (wp_and (delegateAtOnce_spec h.world input)
        ((along_delegateAtOnce IssueFrame.policiesKept_resume input).wp w)) ?_)
      rintro r w' ⟨⟨hw', -⟩, hkept⟩
      cases r with
      | ok => exact wp_pure ⟨hw', hkept⟩
      | error => exact ⟨hw', hkept⟩
    obtain ⟨hq | ⟨parent, token, hstep⟩, hkept⟩ := wp_iff.mp hrun
    · exact ⟨.noted, hq.steps, trivial, hsame hkept⟩
    · exact ⟨_, hstep, trivial, hsame hkept⟩
  | revoke tokenId reasonCode now actor =>
    rw [OfficeAction.run, (synchronously_run _ _ w).1]
    have hkept : (after (revokeToken env tokenId reasonCode now actor) w).PoliciesValid :=
      hsame (policiesKept_revokeToken tokenId reasonCode now actor w)
    rcases wp_iff.mp (World.revokeToken_spec h.world tokenId reasonCode now actor) with
      ⟨hq, -⟩ | ⟨revoked, hstep⟩
    · exact ⟨.noted, hq.steps, trivial, hkept⟩
    · exact ⟨_, hstep, trivial, hkept⟩
  | clock t =>
    have hclock : w.Quiet env { w with clock := t } := by
      refine ⟨?_, rfl, le_rfl, fun hf => hf.of_breaker rfl⟩
      have hw := h.world
      exact ⟨hw.faults, hw.kept, hw.tokens, hw.requests, hw.tokenDrawn, hw.requestDrawn⟩
    exact ⟨.noted, hclock.steps, trivial, hsame rfl⟩

/-- A `createPolicy` or `modifyPolicy` that throws changes nothing at all. -/
theorem OfficeAction.refused_same (h : OfficeSound env w) {a : OfficeAction}
    (ha : a.authors = true) (hrefused : (result (a.run env) w).isOk = false) :
    after (a.run env) w = w := by
  have hauthored : ∀ {op : Op Policy}, wp op (Authored w) w → ∀ outcome,
      (result (synchronously op outcome) w).isOk = false →
      after (synchronously op outcome) w = w := by
    intro op hop outcome hrefused
    obtain ⟨hafter, hok⟩ := synchronously_run op outcome w
    rw [hafter]
    rcases wp_iff.mp hop with ⟨hw, -⟩ | ⟨policy, -, hr, -⟩
    · exact hw
    · rw [hok, hr] at hrefused
      cases hrefused
  cases a with
  | createPolicy input hnumber authoredBy now =>
    exact hauthored (createPolicy_authored h.world h.flowing input hnumber authoredBy now) _ hrefused
  | modifyPolicy policyId changes hnumber authoredBy now =>
    exact hauthored (modifyPolicy_authored h.world h.flowing h.policies policyId changes hnumber
      authoredBy now) _ hrefused
  | _ => cases ha

/-- The numbers that requests store stay numbers. -/
theorem OfficeSound.numbers_after (hw : OfficeSound env w) {p : Platform} {a : OfficeAction}
    {e : Event} (he : w.ledger.Enabled p e) (hexplains : a.Explains env w e) :
    ∀ i r, (w.ledger.after e).requests i = some r → r.ttlSeconds ≠ .nan := by
  have h := hw.numbers
  intro i r' hr'
  rcases Ledger.after_requests hr' with ⟨hwritten, -⟩ | ⟨-, r, hr, rfl⟩
  · cases e with
    | submitted r =>
      cases hwritten
      exact hexplains
    | approved pending =>
      cases hwritten
      exact h _ pending hexplains.1
    | denied pending =>
      cases hwritten
      exact h _ pending he.1
    | escalated pending =>
      cases hwritten
      exact h _ pending he.1
    | claimed r =>
      cases hwritten
      exact h _ r he.1
    | _ => cases hwritten
  · cases e with
    | restarted => exact hexplains.elim
    | _ => exact h i r hr

theorem OfficeSound.step (h : OfficeSound env w) (a : OfficeAction) :
    OfficeSound env (after (a.run env) w) := by
  obtain ⟨e, hstep, hexplains, hpolicies⟩ := a.run_steps h
  refine ⟨hstep.sound, ?_, hstep.flows h.flowing, hpolicies, ?_⟩
  · rw [hstep.ledger_eq]
    exact h.linked.after hstep.enabled
  · rw [hstep.ledger_eq]
    exact h.numbers_after hstep.enabled hexplains

/-! ## Along a run -/

theorem office_sound (env : Env) (acts : List OfficeAction) :
    OfficeSound env ((officeMachine env).run acts) := by
  induction acts using List.reverseRecOn with
  | nil =>
    have hq := World.boot_quiet (@World.sound_initial env)
    refine ⟨hq.sound, ?_, hq.flows ⟨rfl, rfl, rfl⟩, ?_, ?_⟩
    · rw [Machine.run_nil, officeMachine, ledger_boot]
      exact Ledger.linked_empty
    · have hkept : (World.initial.boot env).policyStore = .empty :=
        related_boot (R := PoliciesKept) World.initial
      intro id policy hpolicy
      rw [Machine.run_nil, officeMachine, hkept] at hpolicy
      cases hpolicy
    · intro i r hr
      rw [Machine.run_nil, officeMachine, ledger_boot] at hr
      cases hr
  | append_singleton acts a ih =>
    rw [Machine.run_snoc]
    exact ih.step a

/-- The approval that an entry records: an `approveRequest` of the run that returned the token, on a
request that the policy admitted as it was then. -/
def ApprovedUnder (env : Env) (acts : List OfficeAction) (e : AuditEntryInput) (policyId : String)
    (policy : Policy) (token : Token) : Prop :=
  ∃ pre input post request, acts = pre ++ .approve input :: post ∧
    e.requestId = some input.requestId ∧ e.policyId = input.policyId ∧ e.tokenId = some token.id ∧
    result (approveAtOnce env input) ((officeMachine env).run pre) = .ok token ∧
    ((officeMachine env).run pre).policyStore.live.get policyId = some policy ∧
    ((officeMachine env).run pre).requestStore.live.get input.requestId = some request ∧
    token.scope ⊆ policy.allowedScope ∧ request.ttlSeconds.le policy.maxTtlSeconds = true

theorem ApprovedUnder.snoc {acts : List OfficeAction} {e : AuditEntryInput} {policyId : String}
    {policy : Policy} {token : Token} (h : ApprovedUnder env acts e policyId policy token)
    (a : OfficeAction) : ApprovedUnder env (acts ++ [a]) e policyId policy token := by
  obtain ⟨pre, input, post, request, rfl, h⟩ := h
  exact ⟨pre, input, post ++ [a], request, by simp, h⟩

/-- An approval under a policy is one that the policy, as it is then, permits. -/
theorem OfficeSound.approvedUnder {acts : List OfficeAction} {a : OfficeAction}
    {pending : PendingRequest} {token : Token} {approver policyId : String}
    {named : Option String} (h : OfficeSound env ((officeMachine env).run acts))
    (happroves : a.Approves env ((officeMachine env).run acts) pending token named)
    (hscope : token.scope = pending.scope) (hpolicyId : truthy named = some policyId) :
    ∃ policy, ApprovedUnder env (acts ++ [a])
      (approvalEntry pending token.id approver named) policyId policy token := by
  obtain ⟨hstored, input, rfl, hid, rfl, hok⟩ := happroves
  have hpermits := wp_iff.mp (approveAtOnce_permits h.world input)
  rw [hok] at hpermits
  obtain ⟨pending', hstored', hpermits⟩ := hpermits
  obtain ⟨policy, hpolicy, hsubset, hmax⟩ := hpermits policyId hpolicyId
  rw [hid] at hstored'
  cases hstored.symm.trans hstored'
  have hnumber := JsNumber.ne_nan_of_lt (h.policies policyId policy hpolicy).maxTtlSeconds
  refine ⟨policy, acts, input, [], pending, rfl, by rw [hid]; rfl, rfl, rfl, hok, hpolicy, ?_, ?_, ?_⟩
  · rw [hid]
    exact hstored
  · rw [hscope]
    exact hsubset
  · exact JsNumber.le_of_not_lt (h.numbers _ _ hstored) hnumber hmax

/-- Every approval under a policy that the log records was within it, and its token is still
stored. -/
theorem approvedUnder_of_mem_log (env : Env) (acts : List OfficeAction) :
    ∀ e ∈ ((officeMachine env).run acts).ledger.log, e.decision = .requestApproved →
      ∀ policyId, truthy e.policyId = some policyId → ∃ policy token t,
        ApprovedUnder env acts e policyId policy token ∧
        ((officeMachine env).run acts).ledger.tokens token.id = some t ∧ t.scope = token.scope := by
  induction acts using List.reverseRecOn with
  | nil =>
    intro e he
    rw [Machine.run_nil, officeMachine, ledger_boot] at he
    cases he
  | append_singleton acts a ih =>
    have hsound := office_sound env acts
    obtain ⟨event, hstep, hexplains, -⟩ := a.run_steps hsound
    have hrun : ((officeMachine env).run (acts ++ [a])).ledger =
        ((officeMachine env).run acts).ledger.after event := by
      rw [Machine.run_snoc]
      exact hstep.ledger_eq
    rw [hrun]
    intro e he hdecision policyId hpolicyId
    rcases List.mem_append.mp he with hold | hnew
    · obtain ⟨policy, token, t, hunder, ht, hscope⟩ := ih e hold hdecision policyId hpolicyId
      refine ⟨policy, token, _, hunder.snoc a, hstep.enabled.token_stays ht, ?_⟩
      rw [(Ledger.sameTerms_changedToken event token.id t).scope_eq, hscope]
    · obtain ⟨pending, token, secret, approver, named, rfl, rfl⟩ :=
        Ledger.approval_of_mem_entries hnew hdecision
      obtain ⟨-, -, -, hscope, -⟩ := hstep.enabled
      obtain ⟨policy, hunder⟩ := hsound.approvedUnder hexplains hscope hpolicyId
      exact ⟨policy, token, token, hunder, Ledger.issued_stored rfl, rfl⟩

/-- **Policies really bound what is issued.** In every reachable state the stored policies are valid,
and authoring that throws changes nothing; and for every approval entry under a policy, the policy
existed when the request was approved and bounded its token's scope and its time to live, and the
scope of everything delegated from the token since lies within the same bounds. -/
theorem policies_bound_issuance (env : Env) (acts : List OfficeAction) :
    let w := (officeMachine env).run acts
    (∀ id policy, w.policyStore.live.get id = some policy → isBlank policy.name = false ∧
      policy.allowedScope ≠ [] ∧ (JsNumber.finite 0).lt policy.maxTtlSeconds = true) ∧
    (∀ a : OfficeAction, a.authors = true → (result (a.run env) w).isOk = false →
      (after (a.run env) w).policyStore = w.policyStore ∧
      (after (a.run env) w).auditLog = w.auditLog) ∧
    (∀ e ∈ w.auditLog.entries, e.decision = .requestApproved →
      ∀ policyId, e.policyId = some policyId → policyId ≠ "" → ∃ policy token,
        ApprovedUnder env acts e.toAuditEntryInput policyId policy token ∧
        ∀ i t, w.tokenStore.live.get i = some t →
          (i = token.id ∨ Forest.Ancestor w.ledger.Parent i token.id) →
          t.scope ⊆ policy.allowedScope) := by
  intro w
  have hsound : OfficeSound env w := office_sound env acts
  refine ⟨fun id policy hpolicy => ?_, fun a ha hrefused => ?_, ?_⟩
  · obtain ⟨hname, hscope, hmax⟩ := hsound.policies id policy hpolicy
    exact ⟨hname, hscope, hmax⟩
  · rw [OfficeAction.refused_same hsound ha hrefused]
    exact ⟨rfl, rfl⟩
  · intro e he hdecision policyId hpolicyId hne
    have hmem : e.toAuditEntryInput ∈ w.ledger.log := by
      refine List.mem_filter.mpr ⟨List.mem_map_of_mem he, ?_⟩
      simp [AuditEntryInput.noteworthy, hdecision]
    obtain ⟨policy, token, t₀, hunder, ht₀, hscope⟩ := approvedUnder_of_mem_log env acts
      e.toAuditEntryInput hmem hdecision policyId (truthy_eq_some.mpr ⟨hpolicyId, hne⟩)
    have hbound : t₀.scope ⊆ policy.allowedScope := by
      obtain ⟨_, _, _, _, -, -, -, -, -, -, -, hsubset, -⟩ := id hunder
      rw [hscope]
      exact hsubset
    refine ⟨policy, token, hunder, fun i t ht hbelow => ?_⟩
    rcases hbelow with rfl | hancestor
    · cases ht₀.symm.trans ht
      exact hbound
    · exact List.Subset.trans (hsound.linked.tokens.scope_subset hancestor ht ht₀) hbound

end Ambit
