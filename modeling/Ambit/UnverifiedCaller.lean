import Ambit.RedactedAccess
import Ambit.Runtime

/-! What a caller learns who does not hold the token's secret: the same refusal for every token with
that hash, and no operation behind it is reached. -/

namespace Ambit

open Effect

variable {env : Env} {w : World} {call : Call} {answer : Outcome} {tokenId secret : String}

/-- The call presents the secret for the token; `answer` is its refusal of a wrong one. -/
inductive Presents (tokenId secret : String) : Call → Outcome → Prop
  | enforceToken (action : String) (now : Int) :
      Presents tokenId secret (.enforceToken tokenId secret action now)
        (.enforcement (.denied .invalidCredential (invalidCredentialMessage tokenId)))
  | delegateToken (input : DelegationInput) (hid : input.parentTokenId = tokenId)
      (hsecret : input.providedParentSecret = secret) :
      Presents tokenId secret (.delegateToken input) (.delegation (.denied .invalidCredential))
  | accessMockEndpoint (input : AccessInput) (hid : input.tokenId = tokenId)
      (hsecret : input.providedSecret = secret) :
      Presents tokenId secret (.accessMockEndpoint input) (.access (.denied .invalidCredential))
  | accessCustomerData (input : CustomerAccessInput) (hid : input.tokenId = tokenId)
      (hsecret : input.providedSecret = secret) :
      Presents tokenId secret (.accessCustomerData input) (.customer
        (.denied (.gateway .invalidCredential) (invalidCredentialMessage tokenId)))

/-- The call waits for the outcome of its possession check. -/
def Frame.ChecksPossession : Frame → Prop
  | .enforce _ | .access (.enforcing _ _) | .customer _ | .delegate (.verifying _ _) => True
  | _ => False

/-- The run returns this value, unless a file operation fails, and stores no token. -/
def Returns {α : Type} (w : World) (value : α) (r : Except Err α) (w' : World) : Prop :=
  w'.tokenStore = w.tokenStore ∧ (r = .ok value ∨ r = .error .io ∧ ¬ w.Faultless)

/-- The piece comes to this, the same with any customer registry. -/
structure PieceReturns (env : Env) (piece : Env → Op (Progress Frame Outcome)) (w : World)
    (progress : Progress Frame Outcome) : Prop where
  registry_eq : ∀ registry, piece (env.withRegistry registry) w = piece env w
  returns : wp (piece env) (Returns w progress) w

/-- The call is refused with this answer after its possession check, whatever the state by then. -/
def Refused (env : Env) (call : Call) (answer : Outcome) (w : World) : Prop :=
  ∃ frame : Frame, frame.ChecksPossession ∧
    PieceReturns env (fun env => startCall env call) w (.awaiting frame) ∧
    ∀ downstream w₁, PieceReturns env (fun env => resumeFrame env downstream frame) w₁
      (.returned answer)

/-! ## The pieces -/

section
variable {α β : Type} {x : Op α} {a : α}

theorem Returns.bind_pure {f : α → Op β} {b : β} (h : wp x (Returns w a) w) (hf : f a = pure b) :
    wp (x >>= f) (Returns w b) w := by
  refine wp_bind (wp_mono h fun r w' ⟨htokens, hr⟩ => ?_)
  rcases hr with rfl | ⟨rfl, hfaults⟩
  · show wp (f a) (Returns w b) w'
    rw [hf]
    exact wp_pure ⟨htokens, .inl rfl⟩
  · exact ⟨htokens, .inr ⟨rfl, hfaults⟩⟩

/-- A read that the breaker admits fails with the file operation of a report only. -/
theorem wp_get_admitted (hadmitted : ¬ w.Rejects env) (id : String) :
    wp (TokenStore.get env id) (Returns w (w.tokenStore.live.get id)) w := by
  by_cases hfaultless : w.Faultless
  · refine Faultless.tokenStore_get hfaultless (fun hrej => absurd hrej hadmitted) fun _ => ?_
    exact ⟨by simp, .inl rfl⟩
  · refine wp_mono (TokenStore.wp_get_failing id) fun r w' ⟨hswitched, hr⟩ => ?_
    rw [if_neg hadmitted, World.Ends] at hr
    refine ⟨hswitched.tokenStore_eq, ?_⟩
    split at hr
    · rcases hr.1 with h | h
      · exact .inr ⟨h, hfaultless⟩
      · exact .inl h.1
    · exact .inl hr.1

/-- An entry that is not refused fails with a file operation only. -/
theorem wp_auditRecord_returns {entry : AuditEntryInput} (hreason : entry.lacksReason = false)
    (now : Int) : wp (auditRecord env entry now) (Returns w ()) w := by
  by_cases hfaultless : w.Faultless
  · exact Faultless.wp_auditRecord hfaultless hreason ⟨rfl, .inl rfl⟩
  · refine wp_mono (wp_auditRecord_noted hreason now) fun r w' ⟨hnoted, hr, _⟩ => ?_
    exact ⟨hnoted.tokenStore_eq, hr.imp_right fun h => ⟨h, hfaultless⟩⟩

/-- Reading a token that is there, and going on with it. -/
theorem wp_attempt_get {token : Token} {f : Except Err (Option Token) → Op β} {b : β}
    (hadmitted : ¬ w.Rejects env) (htoken : w.tokenStore.live.get tokenId = some token)
    (hf : f (.ok (some token)) = pure b) (hio : f (.error .io) = throw .io) :
    wp (attempt (TokenStore.get env tokenId) >>= f) (Returns w b) w := by
  refine wp_bind (wp_attempt (wp_mono (wp_get_admitted hadmitted tokenId) ?_))
  rw [htoken]
  rintro r w' ⟨htokens, rfl | ⟨rfl, hfaults⟩⟩
  · show wp (f _) (Returns w b) w'
    rw [hf]
    exact wp_pure ⟨htokens, .inl rfl⟩
  · show wp (f _) (Returns w b) w'
    rw [hio]
    exact wp_throw ⟨htokens, .inr ⟨rfl, hfaults⟩⟩

end

theorem wp_enforceToken_awaits {token : Token} (hadmitted : ¬ w.Rejects env)
    (htoken : w.tokenStore.live.get tokenId = some token) (action : String) (now : Int) :
    wp (enforceToken env tokenId secret action now)
      (Returns w (.awaiting ⟨tokenId, secret, action, now, token⟩)) w :=
  wp_attempt_get hadmitted htoken rfl rfl

/-- The gateway refuses a wrong secret with no regard to anything else. -/
theorem wp_enforce_refuses {frame : EnforceFrame} (hwrong : frame.possessed env = false) :
    wp (frame.resume env) (Returns w (.denied .invalidCredential
      (invalidCredentialMessage frame.tokenId))) w := by
  unfold EnforceFrame.resume
  rw [if_pos (by simp [hwrong])]
  exact Returns.bind_pure (wp_auditRecord_returns rfl _) rfl

theorem wp_delegate_refuses {input : DelegationInput} {parent : Token}
    (hwrong : verifyPassword env.toPlatform input.providedParentSecret parent.secretHash = false) :
    wp (DelegateFrame.resume env (.verifying input parent))
      (Returns w (.returned (.denied .invalidCredential))) w := by
  have hdenial : delegationDenial env input parent = some .invalidCredential := by
    rw [delegationDenial, if_pos (by simp [hwrong])]
  simp only [DelegateFrame.resume, hdenial]
  exact Returns.bind_pure (Returns.bind_pure (wp_auditRecord_returns rfl _) rfl) rfl

/-! ## The calls -/

/-- A wrong secret is refused. -/
theorem refused_of_wrong {token : Token} (hcall : Presents tokenId secret call answer)
    (hadmitted : ¬ w.Rejects env) (htoken : w.tokenStore.live.get tokenId = some token)
    (hwrong : verifyPassword env.toPlatform secret token.secretHash = false) :
    Refused env call answer w := by
  cases hcall with
  | enforceToken action now =>
    refine ⟨.enforce ⟨tokenId, secret, action, now, token⟩, trivial, ⟨fun _ => rfl, ?_⟩,
      fun _ w₁ => ⟨fun _ => rfl, ?_⟩⟩
    · exact Returns.bind_pure (wp_enforceToken_awaits hadmitted htoken action now) rfl
    · exact Returns.bind_pure (wp_enforce_refuses hwrong) rfl
  | delegateToken input hid hsecret =>
    subst hid hsecret
    refine ⟨.delegate (.verifying input token), trivial, ⟨fun _ => rfl, ?_⟩,
      fun _ w₁ => ⟨fun _ => rfl, ?_⟩⟩
    · exact Returns.bind_pure (wp_attempt_get hadmitted htoken rfl rfl) rfl
    · exact Returns.bind_pure (wp_delegate_refuses hwrong) rfl
  | accessMockEndpoint input hid hsecret =>
    subst hid hsecret
    refine ⟨.access (.enforcing input ⟨input.tokenId, input.providedSecret, input.action, input.now,
      token⟩), trivial, ⟨fun _ => rfl, ?_⟩, fun _ w₁ => ⟨fun _ => rfl, ?_⟩⟩
    · exact Returns.bind_pure (Returns.bind_pure (wp_enforceToken_awaits hadmitted htoken _ _) rfl) rfl
    · exact Returns.bind_pure (Returns.bind_pure (wp_enforce_refuses hwrong) rfl) rfl
  | accessCustomerData input hid hsecret =>
    subst hid hsecret
    let enforce : EnforceFrame := ⟨input.tokenId, input.providedSecret, customerReadAction, input.now,
      token⟩
    refine ⟨.customer ⟨input, enforce⟩, trivial, ⟨fun registry => ?_, ?_⟩,
      fun _ w₁ => ⟨fun registry => ?_, ?_⟩⟩
    · show EStateM.bind (accessCustomerData _ input) _ w = EStateM.bind _ _ w
      rw [EStateM.bind, EStateM.bind, accessCustomerData_registry]
    · exact Returns.bind_pure (Returns.bind_pure (wp_enforceToken_awaits hadmitted htoken _ _) rfl) rfl
    · have hdenied : CustomerAccessFrame.Denied ⟨input, enforce⟩ env w₁ := by
        have hpossessed : enforce.possessed env = false := hwrong
        have hr := (wp_iff.mp (wp_enforce_refuses (w := w₁) hpossessed)).2
        rintro hallowed
        rw [hallowed] at hr
        rcases hr with hr | ⟨hr, -⟩ <;> cases hr
      show EStateM.bind (CustomerAccessFrame.resume _ ⟨input, enforce⟩) _ w₁ = EStateM.bind _ _ w₁
      rw [EStateM.bind, EStateM.bind, CustomerAccessFrame.resume_denied hdenied]
    · exact Returns.bind_pure (Returns.bind_pure (wp_enforce_refuses hwrong) rfl) rfl

/-- **A caller without the secret learns nothing.** Of two states whose breakers admit the read, and
which hold tokens with this id and the same hash, however different they are else, the answer is the
same refusal. No call gets from there to a mock endpoint, to the customers or to a new token. -/
theorem unverified_learns_nothing {w₁ w₂ : World} {t₁ t₂ : Token}
    (hcall : Presents tokenId secret call answer)
    (hadmitted₁ : ¬ w₁.Rejects env) (hadmitted₂ : ¬ w₂.Rejects env)
    (ht₁ : w₁.tokenStore.live.get tokenId = some t₁)
    (ht₂ : w₂.tokenStore.live.get tokenId = some t₂)
    (hhash : t₁.secretHash = t₂.secretHash)
    (hwrong : verifyPassword env.toPlatform secret t₁.secretHash = false) :
    Refused env call answer w₁ ∧ Refused env call answer w₂ := by
  refine ⟨refused_of_wrong hcall hadmitted₁ ht₁ hwrong, refused_of_wrong hcall hadmitted₂ ht₂ ?_⟩
  rw [← hhash]
  exact hwrong

/-- A revoked token with the same hash as the sample's. -/
def sampleRevoked : Token :=
  { sampleReader with subject := "other", scope := [], status := .revoked }

theorem unverified_learns_nothing_sample :
    Refused sampleEnv (.enforceToken "id" "guess" customerReadAction 0)
        (.enforcement (.denied .invalidCredential (invalidCredentialMessage "id"))) sampleReading ∧
      Refused sampleEnv (.enforceToken "id" "guess" customerReadAction 0)
        (.enforcement (.denied .invalidCredential (invalidCredentialMessage "id")))
        (World.initial.putToken sampleRevoked) := by
  have hflowing : ∀ {w : World}, w.storeCircuitBreaker = World.initial.storeCircuitBreaker →
      ¬ w.Rejects sampleEnv := fun hbreaker =>
    World.Flowing.not_rejects ⟨by rw [hbreaker]; rfl, by rw [hbreaker]; rfl, by rw [hbreaker]; rfl⟩
  exact unverified_learns_nothing (.enforceToken customerReadAction 0) (hflowing rfl) (hflowing rfl)
    rfl rfl rfl (by decide +kernel)

end Ambit
