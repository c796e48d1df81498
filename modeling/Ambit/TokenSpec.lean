import Ambit.Steps

/-! Issuance, the gateway and the lineage as pieces of the program: what each hands on, and the
event it is. -/

namespace Ambit

open Effect

variable {env : Env} {w : World}

/-! ## Issuance -/

/-- The token that a suspended `issueToken` stores under a new id. -/
def IssueFrame.token (env : Env) (frame : IssueFrame) (id : String) : Token where
  id := id
  subject := frame.request.subject
  scope := frame.request.scope
  issuedAt := frame.issuedAt
  expiresAt := frame.expiresAt
  status := .active
  parentTokenId := frame.request.parentTokenId
  secretHash := hashPassword env.toPlatform frame.secret frame.salt

/-- What `issueToken` hands on for a request below a parent, up to a count of draws. -/
structure IssueFrame.For (env : Env) (request : TokenRequest) (parent : Option Token)
    (supply : ℕ) (frame : IssueFrame) : Prop where
  request_eq : frame.request = request
  scope_ne : request.scope ≠ []
  expiresAt_eq :
    frame.expiresAt = capExpiry (requestedExpiry frame.issuedAt request.ttlSeconds) parent
  salt_ne : frame.salt ≠ []
  secret_drawn : ∃ n < supply, frame.secret = env.randomSecret n

/-- The secret was drawn after the first `n` draws. -/
def IssueFrame.DrawnFrom (env : Env) (n : ℕ) (frame : IssueFrame) : Prop :=
  ∃ k, n ≤ k ∧ frame.secret = env.randomSecret k

theorem IssueFrame.For.mono {request : TokenRequest} {parent : Option Token} {m n : ℕ}
    {frame : IssueFrame} (h : frame.For env request parent m) (hle : m ≤ n) :
    frame.For env request parent n := by
  obtain ⟨k, hk, hsecret⟩ := h.secret_drawn
  exact ⟨h.request_eq, h.scope_ne, h.expiresAt_eq, h.salt_ne, k, hk.trans_le hle, hsecret⟩

/-- The secret of a suspended `issueToken` opens the token it stores. -/
theorem IssueFrame.For.verify {request : TokenRequest} {parent : Option Token} {n : ℕ}
    {frame : IssueFrame} (h : frame.For env request parent n) (id : String) :
    frame.secret ≠ "" ∧
      verifyPassword env.toPlatform frame.secret (frame.token env id).secretHash = true := by
  obtain ⟨k, -, hsecret⟩ := h.secret_drawn
  refine ⟨?_, verifyPassword_hashPassword _ _ h.salt_ne⟩
  rw [hsecret]
  exact env.randomSecret_ne_empty k

theorem checkPolicy_quiet (h : w.Sound env) (request : TokenRequest) (policyId : String)
    (hasPolicyStore : Bool) :
    wp (checkPolicy env request policyId hasPolicyStore) (fun _ w' => w.Quiet env w') w := by
  have hq := World.Quiet.refl h
  refine wp_bind (wp_throwIf (fun _ => hq) fun _ => wp_bind (PolicyStore.wp_get h ?_ ?_))
  · exact fun hrej _ => hq.rejected hrej
  · intro _
    cases w.policyStore.live.get policyId with
    | none => exact wp_throw hq.accessed
    | some policy =>
      refine wp_bind (wp_throwIf (fun _ => hq.accessed) fun _ => ?_)
      exact wp_throwIf (fun _ => hq.accessed) fun _ => hq.accessed

theorem issueToken_spec (h : w.Sound env) (request : TokenRequest) (hasPolicyStore : Bool) :
    wp (issueToken env request hasPolicyStore) (fun r w' => w.Quiet env w' ∧
      OnOk (fun frame => frame.For env request
        ((truthy request.parentTokenId).bind w.ledger.tokens) w'.supply ∧
          frame.DrawnFrom env w.supply) r) w := by
  have hq := World.Quiet.refl h
  refine wp_bind (wp_throwIf (fun _ => ⟨hq, trivial⟩) fun hscope => ?_)
  refine wp_bind (wp_throwIf (fun _ => ⟨hq, trivial⟩) fun _ => wp_bind ?_)
  refine wp_mono (Q := fun _ w' => w.Quiet env w') ?_ fun r w₁ hq₁ => ?_
  · cases truthy request.policyId with
    | some policyId => exact checkPolicy_quiet h request policyId hasPolicyStore
    | none => exact wp_pure hq
  cases r with
  | error => exact ⟨hq₁, trivial⟩
  | ok =>
    refine wp_bind (wp_now (wp_bind ?_))
    refine wp_mono (Q := fun r w' => w.Quiet env w' ∧
      OnOk (fun parent => parent = (truthy request.parentTokenId).bind w.ledger.tokens) r) ?_ ?_
    · cases truthy request.parentTokenId with
      | none => exact wp_pure ⟨hq₁, rfl⟩
      | some parentTokenId =>
        refine TokenStore.wp_get hq₁.sound (fun hrej _ => ⟨hq₁.rejected hrej, trivial⟩) fun _ => ?_
        refine ⟨hq₁.accessed, ?_⟩
        rw [hq₁.ledger_eq]
        rfl
    rintro r w₂ ⟨hq₂, hr⟩
    cases r with
    | error => exact ⟨hq₂, trivial⟩
    | ok parent =>
      have hparent : parent = (truthy request.parentTokenId).bind w.ledger.tokens := hr
      refine wp_bind (wp_draw (wp_bind (wp_draw (wp_pure ⟨hq₂.drawn.drawn, ?_⟩))))
      refine ⟨⟨rfl, hscope, by rw [← hparent], ?_, w₂.supply, ?_, rfl⟩, _, hq₂.supply_le, rfl⟩
      · exact List.ne_nil_of_length_eq_add_one (env.randomSalt_length _)
      · exact (Nat.lt_succ_self _).trans (Nat.lt_succ_self _)

theorem IssueFrame.wp_resume {frame : IssueFrame} {Q : Except Err IssuedToken → World → Prop}
    (h : w.Sound env)
    (hrejected : w.drawn.Rejects env →
      ∀ message, Q (.error (.circuitOpen message)) (w.drawn.rejected env))
    (hadmitted : ¬ w.Rejects env →
      Q (.ok ⟨frame.token env (env.randomUUID w.supply), frame.secret⟩)
        ((w.drawn.accessed env).putToken (frame.token env (env.randomUUID w.supply)))) :
    wp (frame.resume env) Q w := by
  refine wp_bind (wp_draw (wp_bind (TokenStore.wp_save h.drawn hrejected ?_)))
  exact fun hadmits => wp_pure (hadmitted hadmits)

/-- The token that is stored is new. -/
theorem IssueFrame.For.fresh {request : TokenRequest} {parent : Option Token} {n : ℕ}
    {frame : IssueFrame} (hframe : frame.For env request parent n) (h : w.Sound env) :
    w.ledger.Fresh (frame.token env (env.randomUUID w.supply)) where
  isNew := h.tokens_fresh
  id_ne := env.randomUUID_ne_empty _
  active := rfl
  scope_ne := by
    show frame.request.scope ≠ []
    rw [hframe.request_eq]
    exact hframe.scope_ne

/-! ## The gateway -/

theorem EnforcementDenialReason.not_blank (reasonCode : EnforcementDenialReason) :
    isBlank reasonCode.text = false := by
  cases reasonCode <;> decide

/-- A denial of the gateway is logged and returned, and is quiet. -/
theorem denyEnforcement_spec {w' : World} (h : w.Quiet env w') (tokenId subject action : String)
    (now : Int) (reasonCode : EnforcementDenialReason) (message : String) :
    wp (denyEnforcement env tokenId subject action now reasonCode message)
      (fun r w'' => w.Quiet env w'' ∧ r = .ok (.denied reasonCode message)) w' := by
  have hreason : AuditEntryInput.lacksReason
      { tokenId := some tokenId, subject, action, decision := .denied,
        reasonCode := some reasonCode.text, message := some message } = false := by
    simp [AuditEntryInput.lacksReason, reasonCode.not_blank]
  exact wp_bind (wp_auditRecord h.sound hreason (wp_pure ⟨h.logged hreason rfl now, rfl⟩))

/-- A suspended `enforceToken` holds the token as the ledger has it. -/
structure EnforceFrame.For (L : Ledger) (tokenId providedSecret action : String) (now : Int)
    (frame : EnforceFrame) : Prop where
  tokenId_eq : frame.tokenId = tokenId
  providedSecret_eq : frame.providedSecret = providedSecret
  action_eq : frame.action = action
  now_eq : frame.now = now
  token_eq : L.tokens tokenId = some frame.token

/-- What `enforceToken` comes to before its await: a denial, or a frame. -/
def EnforceStarted (L : Ledger) (tokenId providedSecret action : String) (now : Int) :
    Progress EnforceFrame EnforcementDecision → Prop
  | .returned decision => decision ≠ .allowed
  | .awaiting frame => frame.For L tokenId providedSecret action now

/-- `enforceToken` is quiet up to its await. -/
theorem enforceToken_spec (h : w.Sound env) (tokenId providedSecret action : String) (now : Int) :
    wp (enforceToken env tokenId providedSecret action now) (fun r w' => w.Quiet env w' ∧
      OnOk (EnforceStarted w.ledger tokenId providedSecret action now) r) w := by
  have hq := World.Quiet.refl h
  have hdeny : ∀ (reasonCode : EnforcementDenialReason) (message : String) (w' : World),
      w.Quiet env w' → wp (do
        return (Progress.returned (φ := EnforceFrame)
          (← denyEnforcement env tokenId "unknown" action now reasonCode message)))
        (fun r w' => w.Quiet env w' ∧
          OnOk (EnforceStarted w.ledger tokenId providedSecret action now) r) w' := by
    intro reasonCode message w' hq'
    refine wp_bind (wp_mono (denyEnforcement_spec hq' ..) ?_)
    rintro _ w'' ⟨hq'', rfl⟩
    exact wp_pure ⟨hq'', EnforcementDecision.noConfusion⟩
  refine wp_bind (wp_attempt (TokenStore.wp_get h (fun hrej _ => ?_) fun _ => ?_))
  · exact hdeny .storeUnavailable (storeUnavailableMessage tokenId) _ (hq.rejected hrej)
  · generalize hfound : w.ledger.tokens tokenId = found
    cases found with
    | none => exact hdeny .unknownToken (unknownTokenMessage tokenId) _ hq.accessed
    | some token => exact wp_pure ⟨hq.accessed, rfl, rfl, rfl, rfl, hfound⟩

namespace EnforceFrame

variable (env) in
/-- The call comes to the decision to allow. -/
def Allows (frame : EnforceFrame) : Prop :=
  frame.possessed env = true ∧ decide env frame.token frame.action frame.now = .allowed

instance (frame : EnforceFrame) : Decidable (frame.Allows env) := inferInstanceAs (Decidable (_ ∧ _))

variable (env) in
/-- The event that the rest of the call is. -/
def event (frame : EnforceFrame) : Event :=
  if frame.Allows env then .used frame.token frame.action frame.now else .noted

end EnforceFrame

/-- What the gateway allows. -/
theorem decide_eq_allowed {token : Token} {action : String} {now : Int} :
    decide env token action now = .allowed ↔ token.status = .active ∧ action ∈ token.scope ∧
      token.expiresAt.getTime.le (Date.ms now).getTime = false := by
  unfold decide
  by_cases hstatus : token.status = .active
  · by_cases hexpired : token.expiresAt.getTime.le (Date.ms now).getTime = true
    · simp [hstatus, hexpired]
    · by_cases hscope : action ∈ token.scope <;> simp [hstatus, hexpired, hscope]
  · simp [hstatus]

theorem EnforceFrame.resume_spec {frame : EnforceFrame} (h : w.Sound env)
    (hread : w.ledger.HasRead frame.token) :
    wp (frame.resume env) (fun r w' => w.Steps env (frame.event env) w' ∧
      ∃ decision, r = .ok decision ∧ (decision = .allowed ↔ frame.Allows env)) w := by
  have hq := World.Quiet.refl h
  by_cases hallows : frame.Allows env
  · obtain ⟨hpossessed, hdecide⟩ := id hallows
    obtain ⟨hstatus, hscope, hnow⟩ := decide_eq_allowed.mp hdecide
    unfold EnforceFrame.resume EnforceFrame.event
    simp only [hpossessed, Bool.not_true, Bool.false_eq_true, if_false, hdecide, if_pos hallows]
    refine wp_bind (wp_auditRecord h rfl (wp_pure ⟨?_, .allowed, rfl, by simp [hallows]⟩))
    refine ⟨h.logged rfl _, ⟨hread, hstatus, hscope, hnow⟩, ?_, Nat.le_succ _,
      fun hf => hf.of_breaker rfl⟩
    rw [World.ledger_logged_noteworthy h rfl rfl, Ledger.after_eq (fun _ _ => rfl) fun _ => rfl]
    rfl
  · have hevent : frame.event env = .noted := if_neg hallows
    rw [hevent]
    unfold EnforceFrame.resume
    cases hpossessed : frame.possessed env with
    | false =>
      refine wp_mono (denyEnforcement_spec hq ..) ?_
      rintro _ w' ⟨hq', rfl⟩
      exact ⟨hq'.steps, _, rfl, by simp [hallows]⟩
    | true =>
      cases hdecide : decide env frame.token frame.action frame.now with
      | allowed => exact absurd ⟨hpossessed, hdecide⟩ hallows
      | denied reasonCode message =>
        refine wp_mono (denyEnforcement_spec hq ..) ?_
        rintro _ w' ⟨hq', rfl⟩
        exact ⟨hq'.steps, _, rfl, by simp [hallows]⟩

end Ambit
