import Ambit.AuditTrail
import Ambit.RedactedAccess
import Ambit.Refinement

/-! What the calls behind the gateway write to the log: one entry for the decision, and one for what
came of it, both as the caller is told. A call runs to its end with nothing but time and the mock
endpoints changing at its awaits. -/

namespace Ambit

open Effect

variable {env : Env} {w : World} {call : Call}

/-! ## What the log tells -/

/-- The entry for a decision of the gateway. -/
def EnforcementDecision.entry (tokenId subject action : String) :
    EnforcementDecision → AuditEntryInput
  | .allowed => { tokenId := some tokenId, subject, action, decision := .allowed }
  | .denied reasonCode message =>
    { tokenId := some tokenId, subject, action, decision := .denied,
      reasonCode := some reasonCode.text, message := some message }

/-- The entry for the outcome of an endpoint access. -/
def AccessInput.outcomeEntry (input : AccessInput) (subject : String) (outcome : AccessOutcome) :
    AuditEntryInput :=
  { tokenId := some input.tokenId, subject, action := input.action, decision := .allowed,
    outcome := some outcome }

/-- The entry for the data that were disclosed. -/
def CustomerAccessInput.dataEntry (input : CustomerAccessInput) (subject : String)
    (redactedFields : List String) : AuditEntryInput :=
  { tokenId := some input.tokenId, subject, action := customerReadAction, decision := .dataAccessed,
    redactedFields := some redactedFields }

/-- The entry for a denial behind the gateway. -/
def CustomerAccessInput.denialEntry (input : CustomerAccessInput)
    (reasonCode : CustomerDenialReason) (message : String) : AuditEntryInput :=
  { tokenId := some input.tokenId, action := customerReadAction, subject := "unknown",
    decision := .denied, reasonCode := some reasonCode.text, message := some message }

/-- What a successful call of a mock endpoint returns. -/
def AccessInput.success (input : AccessInput) : MockEndpointResult where
  system := input.system
  verb := input.verb
  detail := input.system.text ++ ":" ++ input.verb ++ " succeeded"

/-- A call that has made downstream calls with these successes and failures, and returned this, has
written these entries. -/
inductive Tells : Call → List Bool → Outcome → List AuditEntryInput → Prop
  | enforced (tokenId secret action now subject decision) :
      Tells (.enforceToken tokenId secret action now) [] (.enforcement decision)
        [decision.entry tokenId subject action]
  | accessDenied (input : AccessInput) (subject reasonCode message) :
      Tells (.accessMockEndpoint input) [] (.access (.denied reasonCode))
        [(EnforcementDecision.denied reasonCode message).entry input.tokenId subject input.action]
  | accessSucceeded (input : AccessInput) (subject subject') (failures : ℕ)
      (hattempts : (failures : ℤ) < input.maxAttempts) :
      Tells (.accessMockEndpoint input) (List.replicate failures false ++ [true])
        (.access (.success input.success))
        [EnforcementDecision.allowed.entry input.tokenId subject input.action,
          input.outcomeEntry subject' .success]
  | accessUnreachable (input : AccessInput) (subject subject') (attempts : ℕ)
      (hattempts : (attempts : ℤ) = input.maxAttempts) :
      Tells (.accessMockEndpoint input) (List.replicate attempts false) (.access .unreachable)
        [EnforcementDecision.allowed.entry input.tokenId subject input.action,
          input.outcomeEntry subject' .unreachable]
  | customerDenied (input : CustomerAccessInput) (subject reasonCode message) :
      Tells (.accessCustomerData input) [] (.customer (.denied (.gateway reasonCode) message))
        [(EnforcementDecision.denied reasonCode message).entry input.tokenId subject
          customerReadAction]
  | customerRefused (input : CustomerAccessInput) (subject reasonCode message)
      (hreason : reasonCode = .unknownCustomer ∨ reasonCode = .redactionRuleUnavailable) :
      Tells (.accessCustomerData input) [] (.customer (.denied reasonCode message))
        [EnforcementDecision.allowed.entry input.tokenId subject customerReadAction,
          input.denialEntry reasonCode message]
  | customerData (input : CustomerAccessInput) (subject subject' data redactedFields) :
      Tells (.accessCustomerData input) [] (.customer (.data data redactedFields))
        [EnforcementDecision.allowed.entry input.tokenId subject customerReadAction,
          input.dataEntry subject' redactedFields]

/-! ## Runs -/

/-- The state in which a call goes on: time has passed, and mock endpoints may have changed. -/
def World.meanwhile (w : World) (clock : Int) (endpoints : List MockSystem) : World :=
  { w with clock, mockEndpoints := endpoints }

/-- The downstream call that the frame waits for, with its success or failure. -/
def Frame.calls (downstream : Downstream) : Frame → List Bool
  | .access (.calling _ accepted) => [accepted && downstream = .responded]
  | _ => []

/-- From its state on the call returns, whatever comes of its downstream calls, and then its entries
tell what it did. `calls` are the downstream calls so far, `before` is the log when it started. -/
inductive CallTells (env : Env) (call : Call) (before : List AuditEntryInput) :
    List Bool → Op (Progress Frame Outcome) → World → Prop
  | returned {calls piece w outcome w' entries} (hrun : piece w = .ok (.returned outcome) w')
      (htells : Tells call calls outcome entries) (htrail : w'.trail = before ++ entries) :
      CallTells env call before calls piece w
  | awaiting {calls piece w frame w'} (hrun : piece w = .ok (.awaiting frame) w')
      (hgoesOn : ∀ downstream clock endpoints, CallTells env call before
        (calls ++ frame.calls downstream) (resumeFrame env downstream frame)
        (w'.meanwhile clock endpoints)) : CallTells env call before calls piece w

/-- What a piece of a call comes to. -/
def PieceTells (env : Env) (call : Call) (before : List AuditEntryInput) (calls : List Bool) :
    Except Err (Progress Frame Outcome) → World → Prop
  | .ok (.returned outcome), w' => ∃ entries, Tells call calls outcome entries ∧
      w'.trail = before ++ entries
  | .ok (.awaiting frame), w' => ∀ downstream clock endpoints, CallTells env call before
      (calls ++ frame.calls downstream) (resumeFrame env downstream frame)
      (w'.meanwhile clock endpoints)
  | .error _, _ => False

theorem CallTells.of_wp {before : List AuditEntryInput} {calls : List Bool}
    {piece : Op (Progress Frame Outcome)} (h : wp piece (PieceTells env call before calls) w) :
    CallTells env call before calls piece w := by
  cases hrun : piece w with
  | error err w' => exact (wp_error h hrun).elim
  | ok progress w' =>
    have hpiece := wp_ok h hrun
    cases progress with
    | returned outcome =>
      obtain ⟨entries, htells, htrail⟩ := hpiece
      exact .returned hrun htells htrail
    | awaiting frame => exact .awaiting hrun hpiece

/-! ## The gateway -/

theorem EnforcementDecision.entry_lacksReason (tokenId subject action : String)
    (decision : EnforcementDecision) : (decision.entry tokenId subject action).lacksReason = false := by
  cases decision with
  | allowed => rfl
  | denied reasonCode message => simp [entry, AuditEntryInput.lacksReason, reasonCode.not_blank]

theorem EnforcementDecision.entry_reportsCircuit (tokenId subject action : String)
    (decision : EnforcementDecision) :
    (decision.entry tokenId subject action).reportsCircuit = false := by
  cases decision <;> rfl

/-- What the gateway comes to with its entry in the log: nothing else has changed for what is behind
it. -/
structure Decided (w : World) (tokenId action : String) (decision : EnforcementDecision)
    (w' : World) : Prop where
  faultless : w'.Faultless
  trail_eq : ∃ subject, w'.trail = w.trail ++ [decision.entry tokenId subject action]
  breaker_eq : w'.storeCircuitBreaker = w.storeCircuitBreaker

theorem wp_denyEnforcement {tokenId subject action : String} {now : Int}
    {reasonCode : EnforcementDenialReason} {message : String} (h : w.Faultless) :
    wp (denyEnforcement env tokenId subject action now reasonCode message) (fun r w' =>
      r = .ok (.denied reasonCode message) ∧
        Decided w tokenId action (.denied reasonCode message) w') w := by
  have hreason := EnforcementDecision.entry_lacksReason tokenId subject action
    (.denied reasonCode message)
  refine wp_bind (Faultless.wp_auditRecord h hreason (wp_pure ⟨rfl, h, ⟨subject, ?_⟩, rfl⟩))
  exact World.trail_logged hreason (EnforcementDecision.entry_reportsCircuit ..) now

/-- The gateway up to its await: it denies, or it goes on with the token, and the breaker is closed. -/
theorem wp_enforceToken {tokenId providedSecret action : String} {now : Int} (h : w.Faultless) :
    wp (enforceToken env tokenId providedSecret action now) (fun r w' =>
      (∃ reasonCode message, r = .ok (.returned (.denied reasonCode message)) ∧
        ∃ subject, w'.trail = w.trail ++
          [(EnforcementDecision.denied reasonCode message).entry tokenId subject action]) ∨
      ∃ token, w.tokenStore.live.get tokenId = some token ∧
        r = .ok (.awaiting ⟨tokenId, providedSecret, action, now, token⟩) ∧
        w'.Faultless ∧ w'.Flowing ∧ w'.trail = w.trail) w := by
  have hdeny : ∀ (reasonCode : EnforcementDenialReason) (message : String) (w₁ : World),
      w₁.Faultless → w₁.trail = w.trail →
      wp (do return (Progress.returned (φ := EnforceFrame)
          (← denyEnforcement env tokenId "unknown" action now reasonCode message)))
        (fun r w' => ∃ reasonCode message, r = .ok (.returned (.denied reasonCode message)) ∧
          ∃ subject, w'.trail = w.trail ++
            [(EnforcementDecision.denied reasonCode message).entry tokenId subject action]) w₁ := by
    intro reasonCode message w₁ h₁ htrail
    refine wp_bind (wp_mono (wp_denyEnforcement h₁) ?_)
    rintro _ w₂ ⟨rfl, hdecided⟩
    refine wp_pure ⟨reasonCode, message, rfl, ?_⟩
    rw [← htrail]
    exact hdecided.trail_eq
  refine wp_bind (wp_attempt (Faultless.tokenStore_get h (fun _ message => ?_) fun hadmits => ?_))
  · exact wp_mono (hdeny .storeUnavailable _ _ h.rejected (by simp)) fun _ _ => .inl
  · cases htoken : w.tokenStore.live.get tokenId with
    | none => exact wp_mono (hdeny .unknownToken _ _ h.accessed (by simp)) fun _ _ => .inl
    | some token =>
      exact wp_pure (.inr ⟨token, rfl, rfl, h.accessed, World.flowing_accessed hadmits, by simp⟩)

/-- The gateway from its await on: the decision is in the log. -/
theorem wp_enforceFrame {frame : EnforceFrame} (h : w.Faultless)
    (hid : frame.token.id = frame.tokenId) : wp (frame.resume env) (fun r w' =>
      ∃ decision, r = .ok decision ∧ Decided w frame.tokenId frame.action decision w') w := by
  have hdeny : ∀ (tokenId subject : String) (reasonCode : EnforcementDenialReason)
      (message : String), wp (denyEnforcement env tokenId subject frame.action frame.now reasonCode
        message) (fun r w' => ∃ decision, r = .ok decision ∧
          Decided w tokenId frame.action decision w') w := by
    intro tokenId subject reasonCode message
    refine wp_mono (wp_denyEnforcement h) ?_
    rintro _ w' ⟨rfl, hdecided⟩
    exact ⟨_, rfl, hdecided⟩
  unfold EnforceFrame.resume
  refine wp_ite (fun _ => hdeny _ _ _ _) fun _ => ?_
  rw [hid]
  cases decide env frame.token frame.action frame.now with
  | denied reasonCode message => exact hdeny _ _ _ _
  | allowed =>
    refine wp_bind (Faultless.wp_auditRecord h rfl (wp_pure ⟨.allowed, rfl, h, ?_, rfl⟩))
    exact ⟨frame.token.subject, World.trail_logged rfl rfl _⟩

/-! ## Mock endpoints -/

theorem wp_mapped {φ α : Type} {x : Op (Progress φ α)} {onFrame : φ → Frame} {onValue : α → Outcome}
    {Q : Except Err (Progress Frame Outcome) → World → Prop}
    (h : wp x (fun r w' => Q (r.map (·.map onFrame onValue)) w') w) :
    wp (do return (← x).map onFrame onValue) Q w := by
  refine wp_bind (wp_mono h fun r w' hr => ?_)
  cases r with
  | error => exact hr
  | ok => exact wp_pure hr

/-- What a piece of an endpoint access comes to. -/
def AccessTells (env : Env) (input : AccessInput) (before : List AuditEntryInput)
    (calls : List Bool) (r : Except Err (Progress AccessFrame AccessResult)) (w : World) : Prop :=
  PieceTells env (.accessMockEndpoint input) before calls (r.map (·.map .access .access)) w

section
variable {input : AccessInput} {before : List AuditEntryInput} {subject₀ subject : String}

/-- The end of the loop after all attempts have failed. -/
theorem exhausted_tells {loop : AccessLoop} {attempts : ℕ} (hinput : loop.input = input)
    (hattempts : (attempts : ℤ) = input.maxAttempts) (hend : ¬ loop.attempt ≤ input.maxAttempts)
    (h : w.Faultless) (htrail : w.trail =
      before ++ [EnforcementDecision.allowed.entry input.tokenId subject₀ input.action]) :
    wp (loop.next env (endpointUnreachable input.system))
      (AccessTells env input before (List.replicate attempts false)) w := by
  subst hinput
  refine wp_ite (fun hle => absurd hle hend) fun _ => ?_
  refine wp_bind (Faultless.wp_auditRecord h rfl (wp_pure ?_))
  refine ⟨_, .accessUnreachable loop.input subject₀ loop.subject attempts hattempts, ?_⟩
  rw [World.trail_logged rfl rfl, htrail, List.append_assoc]
  rfl

/-- An attempt that is under way: it succeeds, or the loop goes on behind it. -/
theorem calling_tells {n : ℕ} {accepted : Bool} (hmore : (n : ℤ) < input.maxAttempts)
    (h : w.Faultless) (htrail : w.trail =
      before ++ [EnforcementDecision.allowed.entry input.tokenId subject₀ input.action])
    (hfailed : ∀ w₁ : World, w₁.Faultless → w₁.trail = w.trail →
      wp (AccessLoop.failed env ⟨input, subject, n + 1⟩ (endpointUnreachable input.system))
        (AccessTells env input before (List.replicate (n + 1) false)) w₁)
    (downstream : Downstream) (clock : ℤ) (endpoints : List MockSystem) :
    CallTells env (.accessMockEndpoint input) before (List.replicate n false ++
        Frame.calls downstream (.access (.calling ⟨input, subject, n + 1⟩ accepted)))
      (resumeFrame env downstream (.access (.calling ⟨input, subject, n + 1⟩ accepted)))
      (w.meanwhile clock endpoints) := by
  refine .of_wp (wp_mapped (wp_ite (fun hsuccess => ?_) fun hfailure => ?_))
  · obtain ⟨rfl, rfl⟩ := hsuccess
    refine wp_bind (wp_attempt (Faultless.wp_auditRecord h rfl (wp_pure ?_)))
    refine ⟨_, .accessSucceeded input subject₀ subject n hmore, ?_⟩
    rw [World.trail_logged rfl rfl]
    show w.trail ++ _ = _
    rw [htrail, List.append_assoc]
    rfl
  · have hcalls : Frame.calls downstream (.access (.calling ⟨input, subject, n + 1⟩ accepted)) =
        [false] := by
      simpa [Frame.calls] using hfailure
    rw [hcalls, ← List.replicate_succ']
    exact hfailed _ h rfl

/-- **The loop.** With `n` failed attempts behind it and more to come, it goes on to its end. -/
theorem next_tells (remaining : ℕ) {n : ℕ} (lastError : Err)
    (hremaining : (n + remaining + 1 : ℤ) = input.maxAttempts) (h : w.Faultless)
    (htrail : w.trail =
      before ++ [EnforcementDecision.allowed.entry input.tokenId subject₀ input.action]) :
    wp (AccessLoop.next env ⟨input, subject, n + 1⟩ lastError)
      (AccessTells env input before (List.replicate n false)) w := by
  induction remaining generalizing n lastError w with
  | zero =>
    refine wp_ite (fun _ => ?_) fun hend => absurd (by simp only; omega) hend
    refine wp_bind (wp_get (wp_pure (calling_tells (by omega) h htrail fun w₁ h₁ htrail₁ => ?_)))
    refine wp_ite (fun hmore => absurd hmore (by simp only; omega)) fun _ => ?_
    exact exhausted_tells rfl (by push_cast; omega) (by simp only; omega) h₁ (htrail₁.trans htrail)
  | succ remaining ih =>
    refine wp_ite (fun _ => ?_) fun hend => absurd (by simp only; omega) hend
    refine wp_bind (wp_get (wp_pure (calling_tells (by omega) h htrail fun w₁ h₁ htrail₁ => ?_)))
    refine wp_ite (fun _ => wp_pure fun downstream clock endpoints => ?_) fun hend =>
      absurd (by simp only; omega) hend
    -- After the pause the next attempt starts.
    refine .of_wp (wp_mapped ?_)
    have hgoesOn : wp (AccessLoop.next env ⟨input, subject, n + 1 + 1⟩
        (endpointUnreachable input.system))
          (AccessTells env input before (List.replicate (n + 1) false))
          (w₁.meanwhile clock endpoints) := by
      have hleft : ((n + 1 : ℕ) + remaining + 1 : ℤ) = input.maxAttempts := by
        push_cast
        omega
      have hnext := ih (endpointUnreachable input.system) (w := w₁.meanwhile clock endpoints) hleft h₁
        (htrail₁.trans htrail)
      push_cast at hnext
      exact hnext
    have hcalls : List.replicate (n + 1) false ++ Frame.calls downstream
        (.access (.sleeping ⟨input, subject, n + 1⟩ (endpointUnreachable input.system))) =
          List.replicate (n + 1) false := List.append_nil _
    rw [hcalls]
    exact hgoesOn

/-- Behind the gateway an access goes on to its end. -/
theorem accessAfter_tells {decision : EnforcementDecision} (hmax : 1 ≤ input.maxAttempts)
    (h : w.Faultless) (hflowing : w.Flowing)
    (htrail : w.trail = before ++ [decision.entry input.tokenId subject₀ input.action]) :
    wp (accessAfter env input decision) (AccessTells env input before []) w := by
  cases decision with
  | denied reasonCode message =>
    exact wp_pure ⟨_, .accessDenied input subject₀ reasonCode message, htrail⟩
  | allowed =>
    refine wp_bind (Faultless.tokenStore_get h (fun hrej => absurd hrej hflowing.not_rejects) ?_)
    intro _
    obtain ⟨attempts, hattempts⟩ := Int.eq_ofNat_of_zero_le (show 0 ≤ input.maxAttempts - 1 by omega)
    rw [hflowing.accessed_eq]
    exact next_tells attempts _ (n := 0) (by push_cast; omega) h htrail

end

/-! ## Customer data -/

section
variable {input : CustomerAccessInput} {before : List AuditEntryInput} {subject₀ : String}

/-- What the rest of an access to customer data comes to. -/
def CustomerTells (env : Env) (input : CustomerAccessInput) (before : List AuditEntryInput)
    (r : Except Err CustomerDataAccessResult) (w : World) : Prop :=
  PieceTells env (.accessCustomerData input) before [] (r.map (.returned ∘ .customer)) w

theorem denyCustomerAccess_tells (message : String) {reasonCode : CustomerDenialReason}
    (hreason : reasonCode = .unknownCustomer ∨ reasonCode = .redactionRuleUnavailable)
    (h : w.Faultless) (htrail : w.trail =
      before ++ [EnforcementDecision.allowed.entry input.tokenId subject₀ customerReadAction]) :
    wp (denyCustomerAccess env input reasonCode message) (CustomerTells env input before) w := by
  have hlacks : (input.denialEntry reasonCode message).lacksReason = false := by
    rcases hreason with rfl | rfl <;> rfl
  refine wp_bind (Faultless.wp_auditRecord h hlacks (wp_pure ?_))
  refine ⟨_, .customerRefused input subject₀ reasonCode message hreason, ?_⟩
  refine (World.trail_logged hlacks rfl input.now).trans ?_
  rw [htrail, List.append_assoc]
  rfl

theorem disclose_tells {customer : CustomerRecord} {rule : RedactionRule} {token : Option Token}
    (h : w.Faultless) (htrail : w.trail =
      before ++ [EnforcementDecision.allowed.entry input.tokenId subject₀ customerReadAction]) :
    wp (disclose env input customer rule token) (CustomerTells env input before) w := by
  refine wp_bind (Faultless.wp_auditRecord h rfl (wp_pure ?_))
  refine ⟨_, .customerData input subject₀ (token.elim "unknown" (·.subject)) _ _, ?_⟩
  rw [World.trail_logged rfl rfl, htrail, List.append_assoc]
  rfl

/-- Behind the gateway an access to customer data comes to its end. -/
theorem customerDataAfter_tells {decision : EnforcementDecision} (h : w.Faultless)
    (hflowing : w.Flowing)
    (htrail : w.trail = before ++ [decision.entry input.tokenId subject₀ customerReadAction]) :
    wp (customerDataAfter env input decision) (CustomerTells env input before) w := by
  cases decision with
  | denied reasonCode message =>
    exact wp_pure ⟨_, .customerDenied input subject₀ reasonCode message, htrail⟩
  | allowed =>
    cases hcustomer : env.customerRegistry input.customerId with
    | none =>
      simp only [customerDataAfter, hcustomer]
      exact denyCustomerAccess_tells _ (.inl rfl) h htrail
    | some customer =>
      cases hrule : w.redactionRuleStore.live.get input.redactionRuleId with
      | none =>
        refine wp_congr (customerDataAfter_unruled hcustomer hrule) ?_
        apply denyCustomerAccess_tells _ _ h htrail
        exact .inr rfl
      | some rule =>
        refine wp_congr (customerDataAfter_ruled hcustomer hrule) ?_
        refine wp_bind (Faultless.tokenStore_get h ?_ fun _ => ?_)
        · exact fun hrej => absurd hrej hflowing.not_rejects
        · rw [hflowing.accessed_eq]
          exact disclose_tells h htrail

end

/-! ## The calls -/

/-- The call is one of the three that the gateway decides, with at least one attempt. -/
def Call.BehindGateway : Call → Prop
  | .enforceToken _ _ _ _ | .accessCustomerData _ => True
  | .accessMockEndpoint input => 1 ≤ input.maxAttempts
  | _ => False

/-- From the await of the gateway on. -/
theorem enforcing_tells {frame : EnforceFrame} {β : Type} {next : EnforcementDecision → Op β}
    {Q : Except Err β → World → Prop} (h : w.Faultless) (hflowing : w.Flowing)
    (hid : frame.token.id = frame.tokenId)
    (hnext : ∀ decision subject (w₁ : World), w₁.Faultless → w₁.Flowing →
      w₁.trail = w.trail ++ [decision.entry frame.tokenId subject frame.action] →
      wp (next decision) Q w₁) : wp (frame.resume env >>= next) Q w := by
  refine wp_bind (wp_mono (wp_enforceFrame h hid) ?_)
  rintro _ w₁ ⟨decision, rfl, hfaultless, ⟨subject, htrail⟩, hbreaker⟩
  exact hnext decision subject w₁ hfaultless (hflowing.of_breaker hbreaker) htrail

/-- Up to the await of the gateway. -/
theorem started_tells {tokenId secret action : String} {now : Int} {β : Type}
    {next : Progress EnforceFrame EnforcementDecision → Op β} {Q : Except Err β → World → Prop}
    (h : w.Faultless)
    (hdenied : ∀ reasonCode message subject w₁, w₁.trail = w.trail ++
      [(EnforcementDecision.denied reasonCode message).entry tokenId subject action] →
      wp (next (.returned (.denied reasonCode message))) Q w₁)
    (hawaits : ∀ token w₁, w.tokenStore.live.get tokenId = some token → w₁.Faultless →
      w₁.Flowing → w₁.trail = w.trail →
      wp (next (.awaiting ⟨tokenId, secret, action, now, token⟩)) Q w₁) :
    wp (enforceToken env tokenId secret action now >>= next) Q w := by
  refine wp_bind (wp_mono (wp_enforceToken h) ?_)
  rintro _ w₁ (⟨reasonCode, message, rfl, subject, htrail⟩ |
    ⟨token, htoken, rfl, hfaultless, hflowing, htrail⟩)
  · exact hdenied reasonCode message subject w₁ htrail
  · exact hawaits token w₁ htoken hfaultless hflowing htrail

/-- Without failures of file operations, in a store that keeps each token under its id. -/
theorem callTells (h : w.Faultless) (hkeyed : ∀ i t, w.tokenStore.live.get i = some t → t.id = i)
    (hcall : call.BehindGateway) : CallTells env call w.trail [] (startCall env call) w := by
  cases call with
  | enforceToken tokenId secret action now =>
    refine .of_wp (started_tells h ?_ ?_)
    · intro reasonCode message subject w₁ htrail
      exact wp_pure ⟨_, .enforced tokenId secret action now subject _, htrail⟩
    · intro token w₁ htoken h₁ hflowing htrail₁
      refine wp_pure fun downstream clock endpoints => .of_wp ?_
      refine enforcing_tells (w := w₁.meanwhile clock endpoints) h₁ (hflowing.of_breaker rfl)
        (hkeyed _ _ htoken) fun decision subject w₂ _ _ htrail => ?_
      rw [show (w₁.meanwhile clock endpoints).trail = w.trail from htrail₁] at htrail
      exact wp_pure ⟨_, .enforced tokenId secret action now subject decision, htrail⟩
  | accessMockEndpoint input =>
    refine .of_wp (wp_mapped (started_tells h ?_ ?_))
    · intro reasonCode message subject w₁ htrail
      exact wp_pure ⟨_, .accessDenied input subject reasonCode message, htrail⟩
    · intro token w₁ htoken h₁ hflowing htrail₁
      refine wp_pure fun downstream clock endpoints => .of_wp (wp_mapped ?_)
      refine enforcing_tells (w := w₁.meanwhile clock endpoints) h₁ (hflowing.of_breaker rfl)
        (hkeyed _ _ htoken) fun decision subject w₂ h₂ hflowing₂ htrail => ?_
      rw [show (w₁.meanwhile clock endpoints).trail = w.trail from htrail₁] at htrail
      exact accessAfter_tells hcall h₂ hflowing₂ htrail
  | accessCustomerData input =>
    refine .of_wp (wp_mapped (started_tells h ?_ ?_))
    · intro reasonCode message subject w₁ htrail
      exact wp_pure ⟨_, .customerDenied input subject reasonCode message, htrail⟩
    · intro token w₁ htoken h₁ hflowing htrail₁
      refine wp_pure fun downstream clock endpoints => .of_wp (wp_bind ?_)
      refine enforcing_tells (w := w₁.meanwhile clock endpoints) h₁ (hflowing.of_breaker rfl)
        (hkeyed _ _ htoken) fun decision subject w₂ h₂ hflowing₂ htrail => ?_
      rw [show (w₁.meanwhile clock endpoints).trail = w.trail from htrail₁] at htrail
      refine wp_mono (customerDataAfter_tells h₂ hflowing₂ htrail) fun r w₃ hr => ?_
      cases r with
      | error => exact hr
      | ok => exact wp_pure hr
  | _ => exact hcall.elim

/-- **The log tells what the gateway did.** From every state that the process reaches, whatever its
breaker does, a call of the three returns; the entries that it has written then are those of its
decision and its outcome, and its downstream calls end with the first success. -/
theorem trail_tells {κ : Type} (acts : List (Action κ)) (hcall : call.BehindGateway) :
    CallTells env call ((processMachine κ env).run acts).world.trail [] (startCall env call)
      ((processMachine κ env).run acts).world := by
  have hsound : ((processMachine κ env).run acts).Sound env := Config.sound_run acts
  exact callTells hsound.world.faults hsound.world.tokens.keyed hcall

/-- An access to the mail system with up to two attempts. -/
def sampleMail : AccessInput where
  tokenId := "id-6"
  providedSecret := "secret-4"
  system := .email
  verb := "send"
  maxAttempts := 2
  now := 0

/-- A token for the mail system is asked for and approved. -/
def sampleMailApproved : List (Action Unit) :=
  [.call () (.requestToken ⟨"agent", ["email:send"], .finite 60, none, none⟩ (some "alice") 0),
   .call () (.approveRequest ⟨"id-2", "alice", none, 0⟩),
   .resume 0 .responded]

/-- It is used, and the first downstream call runs into the timeout. -/
def sampleMailRetried : List (Action Unit) :=
  [.call () (.accessMockEndpoint sampleMail), .resume 0 .responded, .resume 0 .timedOut,
   .resume 0 .responded, .resume 0 .responded]

theorem trail_tells_sample :
    CallTells sampleEnv (.accessMockEndpoint sampleMail)
        ((processMachine Unit sampleEnv).run sampleMailApproved).world.trail []
        (startCall sampleEnv (.accessMockEndpoint sampleMail))
        ((processMachine Unit sampleEnv).run sampleMailApproved).world ∧
      ((processMachine Unit sampleEnv).run (sampleMailApproved ++ sampleMailRetried)).world.trail =
        ((processMachine Unit sampleEnv).run sampleMailApproved).world.trail ++
          [EnforcementDecision.allowed.entry "id-6" "agent" "email:send",
            sampleMail.outcomeEntry "agent" .success] :=
  ⟨trail_tells sampleMailApproved (show (1 : ℤ) ≤ 2 by decide), by decide +kernel⟩

end Ambit
