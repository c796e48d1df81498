import Ambit.TokenRequest
import Ambit.TokenSpec

/-! The request queue as events: a submission, a decision, an escalation, a claim. A call that is
refused is quiet. -/

namespace Ambit

open Effect

variable {env : Env} {w : World}

/-! ## Submission -/

/-- The record that a submission stores, under a new id. -/
def SubmittedRequest.pending (request : SubmittedRequest) (primaryApprover : Option String)
    (now : Int) (id : String) : PendingRequest where
  subject := request.subject
  scope := request.scope
  ttlSeconds := request.ttlSeconds
  parentTokenId := request.parentTokenId
  id := id
  status := .pending
  requestedAt := now
  idempotencyKey := request.idempotencyKey
  assignedApprover := primaryApprover

theorem checkAnomaly_quiet {w' : World} (h : w.Quiet env w') (subject : String)
    (scope : List String) (now : Int) :
    wp (checkAnomaly env subject scope now) (fun r w'' => w.Quiet env w'' ∧ r.isOk = true) w' := by
  refine wp_bind (wp_get (wp_bind (wp_set (wp_pure ⟨⟨?_, h.ledger_eq, h.supply_le, ?_⟩, rfl⟩))))
  · exact ⟨h.sound.faults, h.sound.kept, h.sound.tokens, h.sound.requests, h.sound.tokenDrawn,
      h.sound.requestDrawn⟩
  · exact fun hf => (h.flows hf).of_breaker rfl

theorem submitRequest_spec (h : w.Sound env) (request : SubmittedRequest)
    (primaryApprover : Option String) (now : Int) :
    wp (submitRequest env request primaryApprover now) (fun r w' =>
      w.Steps env (.submitted (request.pending primaryApprover now (env.randomUUID w.supply))) w' ∧
      OnOk (· = request.pending primaryApprover now (env.randomUUID w.supply)) r) w := by
  refine wp_bind (wp_draw ?_)
  have hdrawn : w.Quiet env w.drawn := (World.Quiet.refl h).drawn
  let r := request.pending primaryApprover now (env.randomUUID w.supply)
  have hput : (w.drawn.putRequest r).Sound env :=
    hdrawn.sound.putRequest ⟨w.supply, Nat.lt_succ_self _, rfl⟩
  refine wp_bind (RequestStore.wp_save hdrawn.sound (wp_bind ?_))
  refine wp_auditRecord hput rfl ?_
  have hstep : w.Steps env (.submitted r) ((w.drawn.putRequest r).logged env (submissionEntry r) now) := by
    refine ⟨hput.logged rfl now, ⟨h.requests_fresh, rfl, rfl, rfl⟩, ?_, ?_,
      fun hf => hf.of_breaker rfl⟩
    · rw [World.ledger_logged_noteworthy hput rfl rfl, World.ledger_putRequest,
        Ledger.after_eq (fun _ _ => rfl) fun _ => rfl]
      rfl
    · exact (Nat.le_succ _).trans (Nat.le_succ _)
  refine wp_bind (wp_mono (checkAnomaly_quiet (.refl hstep.sound) ..) ?_)
  rintro (_ | anomaly) w₁ ⟨hq₁, hok⟩
  · cases hok
  · refine wp_bind (wp_ite (fun _ => wp_mono (hq₁.auditRecord rfl now) ?_) fun _ => wp_pure ?_)
    · rintro (_ | _) w₂ hq₂
      · exact ⟨hstep.quiet hq₂, trivial⟩
      · exact wp_pure ⟨hstep.quiet hq₂, rfl⟩
    · exact wp_pure ⟨hstep.quiet hq₁, rfl⟩

/-- The request that a retry finds is a stored one of the same submission. -/
theorem existingRequest_eq_some {request : SubmittedRequest} {found : PendingRequest}
    (h : existingRequest w request = some found) : ∃ i, w.ledger.requests i = some found ∧
      found.subject = request.subject ∧ truthy request.idempotencyKey = found.idempotencyKey ∧
      found.idempotencyKey ≠ none := by
  obtain ⟨key, hkey, hfound⟩ := Option.bind_eq_some_iff.mp h
  rw [findByIdempotencyKey] at hfound
  obtain ⟨i, hi⟩ := OrderedMap.mem_values_iff.mp (List.mem_of_find?_eq_some hfound)
  have hmatches := List.find?_some hfound
  obtain ⟨hsubject, hidempotencyKey⟩ := of_decide_eq_true hmatches
  refine ⟨i, hi, hsubject, ?_, ?_⟩
  · rw [hkey, hidempotencyKey]
  · rw [hidempotencyKey]
    exact Option.some_ne_none key

theorem wp_requestToken {request : SubmittedRequest} {primaryApprover : Option String} {now : Int}
    {Q : Except Err PendingRequest → World → Prop}
    (hfound : ∀ found, existingRequest w request = some found → Q (.ok found) w)
    (hnew : existingRequest w request = none →
      wp (submitRequest env request primaryApprover now) Q w) :
    wp (requestToken env request primaryApprover now) Q w := by
  refine wp_bind (wp_get ?_)
  dsimp only
  cases hexisting : existingRequest w request with
  | some found => exact wp_pure (hfound found hexisting)
  | none => exact hnew hexisting

/-- A submission stores a new request, or finds the one that an earlier submission stored. -/
theorem requestToken_spec (h : w.Sound env) (request : SubmittedRequest)
    (primaryApprover : Option String) (now : Int) :
    wp (requestToken env request primaryApprover now) (fun r w' =>
      (w.Quiet env w' ∧ OnOk (fun found => existingRequest w request = some found) r) ∨
        ∃ id, w.Steps env (.submitted (request.pending primaryApprover now id)) w' ∧
          OnOk (· = request.pending primaryApprover now id) r) w := by
  refine wp_requestToken (fun found hfound => .inl ⟨.refl h, hfound⟩) fun _ => ?_
  refine wp_mono (submitRequest_spec h request primaryApprover now) fun r w' hstep => ?_
  exact .inr ⟨_, hstep⟩

/-! ## Decisions -/

theorem getPending_spec (requestId verb : String) :
    wp (getPending requestId verb) (fun r w' => w' = w ∧ OnOk (fun pending =>
      w.ledger.requests requestId = some pending ∧ pending.status = .pending) r) w := by
  refine wp_bind (RequestStore.wp_get ?_)
  generalize hfound : w.ledger.requests requestId = found
  cases found with
  | none => exact wp_throw ⟨rfl, trivial⟩
  | some pending =>
    refine wp_bind (wp_throwIf (fun _ => ⟨rfl, trivial⟩) fun hstatus => ?_)
    exact wp_pure ⟨rfl, rfl, not_not.mp hstatus⟩

theorem wp_getPending {requestId verb : String} {pending : PendingRequest}
    {Q : Except Err PendingRequest → World → Prop}
    (hstored : w.ledger.requests requestId = some pending) (hstatus : pending.status = .pending)
    (hQ : Q (.ok pending) w) : wp (getPending requestId verb) Q w := by
  refine wp_bind (RequestStore.wp_get ?_)
  rw [hstored]
  exact wp_bind (wp_throwIf (fun hdecided => absurd hstatus hdecided) fun _ => wp_pure hQ)

theorem assertEligibleDecider_spec (h : w.Sound env) (pending : PendingRequest)
    (approver action : String) (now : Int) :
    wp (assertEligibleDecider env pending approver action now) (fun r w' => w.Quiet env w' ∧
      OnOk (fun _ => w' = w ∧ pending.eligible approver) r) w := by
  refine wp_ite (fun heligible => wp_pure ⟨.refl h, rfl, heligible⟩) fun _ => wp_bind ?_
  refine wp_mono ((World.Quiet.refl h).auditRecord rfl now) fun r w' hq => ?_
  cases r with
  | error => exact ⟨hq, trivial⟩
  | ok => exact wp_throw ⟨hq, trivial⟩

/-- The `catch` of `approveRequest` adds a log entry to a failure and leaves a success alone. -/
theorem wp_catchApprovalFailure {α : Type} {input : ApprovalInput} {pending : PendingRequest}
    {issue : Op α} {Q : Except Err α → World → Prop}
    (hissue : wp issue (fun r w' => (∃ value, r = .ok value ∧ Q r w') ∨
      (∃ err, r = .error err) ∧ w'.Sound env ∧
        ∀ err w'', w'.Quiet env w'' → Q (.error err) w'') w) :
    wp (catchApprovalFailure env input pending issue) Q w := by
  refine wp_bind (wp_attempt (wp_mono hissue ?_))
  rintro r w' (⟨value, rfl, hQ⟩ | ⟨⟨err, rfl⟩, hsound, hQ⟩)
  · exact wp_pure hQ
  · refine wp_bind ?_
    refine wp_mono (Q := fun _ w'' => w'.Quiet env w'') ?_ fun r w'' hq => ?_
    · cases err.approvalFailure with
      | some message => exact (World.Quiet.refl hsound).auditRecord rfl _
      | none => exact wp_pure (.refl hsound)
    cases r with
    | error => exact hQ _ _ hq
    | ok => exact wp_throw (hQ _ _ hq)

/-- The token request that an approval makes of a pending request. -/
def PendingRequest.tokenRequest (pending : PendingRequest) (policyId : Option String) :
    TokenRequest where
  subject := pending.subject
  scope := pending.scope
  ttlSeconds := pending.ttlSeconds
  policyId := policyId

/-- A suspended `approveRequest` holds the request as the ledger has it, and an approver who may
decide it. -/
structure ApproveFrame.For (env : Env) (L : Ledger) (input : ApprovalInput) (supply : ℕ)
    (frame : ApproveFrame) : Prop where
  input_eq : frame.input = input
  pending_eq : L.requests input.requestId = some frame.pending
  status_eq : frame.pending.status = .pending
  eligible : frame.pending.eligible input.approver
  issue : frame.issue.For env (frame.pending.tokenRequest input.policyId) none supply

/-- `approveRequest` is quiet up to its await. -/
theorem approveRequest_spec (h : w.Sound env) (input : ApprovalInput) :
    wp (approveRequest env input) (fun r w' => w.Quiet env w' ∧
      OnOk (fun frame => frame.For env w.ledger input w'.supply ∧
        frame.issue.DrawnFrom env w.supply) r) w := by
  refine wp_bind (wp_mono (getPending_spec input.requestId "approve") fun r w₁ ⟨hw, hr⟩ => ?_)
  obtain rfl := hw.symm
  cases r with
  | error => exact ⟨.refl h, trivial⟩
  | ok pending =>
    obtain ⟨hpending, hstatus⟩ := hr
    refine wp_bind (wp_mono (assertEligibleDecider_spec h pending input.approver _ _) ?_)
    intro r w₂ ⟨hq, hr⟩
    cases r with
    | error => exact ⟨hq, trivial⟩
    | ok =>
      obtain ⟨hw, heligible⟩ := hr
      obtain rfl := hw.symm
      refine wp_bind (wp_catchApprovalFailure ?_)
      refine wp_mono (issueToken_spec h (pending.tokenRequest input.policyId) true) ?_
      intro r w₃ ⟨hq₃, hr⟩
      cases r with
      | error err =>
        exact .inr ⟨⟨err, rfl⟩, hq₃.sound, fun _ _ hq₄ => ⟨hq₃.trans hq₄, trivial⟩⟩
      | ok issue =>
        have hsupply := hq.supply_le
        obtain ⟨hfor, k, hk, hsecret⟩ := hr
        exact .inl ⟨issue, rfl, wp_pure ⟨hq₃, ⟨rfl, hpending, hstatus, heligible, hfor⟩, k,
          hsupply.trans hk, hsecret⟩⟩

/-- The rest of an approval stores the token and the approved request, or is quiet where the breaker
rejects it. -/
theorem ApproveFrame.resume_spec {frame : ApproveFrame} {n : ℕ} (h : w.Sound env)
    (hread : w.ledger.HasReadRequest frame.pending)
    (hid : frame.pending.id = frame.input.requestId)
    (hissue : frame.issue.For env (frame.pending.tokenRequest frame.input.policyId) none n) :
    wp (frame.resume env) (fun r w' => (w.Quiet env w' ∧ w.Rejects env ∧ r.isOk = false) ∨
      ¬ w.Rejects env ∧ ∃ id,
        w.Steps env (.approved frame.pending (frame.issue.token env id) frame.issue.secret
          frame.input.approver frame.input.policyId) w' ∧
        r = .ok (frame.issue.token env id)) w := by
  refine wp_bind (wp_catchApprovalFailure (IssueFrame.wp_resume h ?_ fun hadmits => ?_))
  · intro hrej message
    have hq := (World.Quiet.refl h).drawn.rejected hrej
    exact .inr ⟨⟨_, rfl⟩, hq.sound, fun _ _ hq' => .inl ⟨hq.trans hq', hrej, rfl⟩⟩
  · refine .inl ⟨_, rfl, ?_⟩
    have hq := (World.Quiet.refl h).drawn.accessed
    let token := frame.issue.token env (env.randomUUID w.supply)
    have htoken : ((w.drawn.accessed env).putToken token).Sound env := by
      refine hq.sound.putToken ⟨w.supply, ?_, rfl⟩
      exact Nat.lt_of_lt_of_le (Nat.lt_succ_self _) (World.Quiet.refl h.drawn).accessed.supply_le
    let approved : PendingRequest := { frame.pending with
      status := .approved, tokenId := some token.id, tokenSecret := some frame.issue.secret }
    have hrequest : (((w.drawn.accessed env).putToken token).putRequest approved).Sound env := by
      obtain ⟨current, hcurrent, hagrees⟩ := hread
      obtain ⟨n, hn, hid⟩ := h.requestDrawn _ _ hcurrent
      exact htoken.putRequest ⟨n, hn.trans_le hq.supply_le, hid⟩
    refine wp_bind (RequestStore.wp_save htoken (wp_bind (wp_auditRecord hrequest rfl ?_)))
    refine wp_pure (.inr ⟨hadmits, _, ⟨hrequest.logged rfl _, ?_, ?_, ?_,
      fun hf => (hq.flows hf).of_breaker rfl⟩, rfl⟩)
    · obtain ⟨hne, hverify⟩ := hissue.verify token.id
      have hrequest : frame.issue.request = frame.pending.tokenRequest frame.input.policyId :=
        hissue.request_eq
      refine ⟨hread, hissue.fresh h, ?_, ?_, ?_, hne, hverify⟩
      all_goals simp only [IssueFrame.token, hrequest, PendingRequest.tokenRequest]
    · rw [World.ledger_logged_noteworthy hrequest rfl rfl, World.ledger_putRequest,
        World.ledger_putToken, hq.ledger_eq, Ledger.after_eq (fun _ _ => rfl) fun _ => rfl]
      simp only [Ledger.note, Event.entries, approvalEntry, hid]
      rfl
    · exact hq.supply_le.trans (Nat.le_succ _)

/-- A denial that goes through. -/
theorem denyRequest_spec (h : w.Sound env) (requestId approver : String) (reasonCode : DenialReason)
    (now : Int) :
    wp (denyRequest env requestId approver reasonCode now) (fun r w' =>
      (w.Quiet env w' ∧ r.isOk = false) ∨
        ∃ pending, pending.id = requestId ∧ pending.eligible approver ∧
          w.Steps env (.denied pending) w' ∧ r = .ok ()) w := by
  refine wp_bind (wp_mono (getPending_spec requestId "deny") fun r w₁ ⟨hw, hr⟩ => ?_)
  obtain rfl := hw.symm
  cases r with
  | error => exact .inl ⟨.refl h, rfl⟩
  | ok pending =>
    obtain ⟨hpending, hstatus⟩ := hr
    have hid : pending.id = requestId := h.requests.keyed _ _ hpending
    subst hid
    refine wp_bind (wp_mono (assertEligibleDecider_spec h pending approver _ _) ?_)
    intro r w₂ ⟨hq, hr⟩
    cases r with
    | error => exact .inl ⟨hq, rfl⟩
    | ok =>
      obtain ⟨hw, heligible⟩ := hr
      obtain rfl := hw.symm
      let denied : PendingRequest := { pending with status := .denied }
      have hput : (w.putRequest denied).Sound env := h.putRequest (h.requestDrawn _ _ hpending)
      have hreason : isBlank reasonCode.text = false := by cases reasonCode <;> decide
      refine wp_bind (RequestStore.wp_save h (wp_auditRecord hput ?_ ?_))
      · simp [AuditEntryInput.lacksReason, hreason]
      · have hreason' : AuditEntryInput.lacksReason
            { requestId := some pending.id, subject := pending.subject, action := "deny_request",
              decision := .requestDenied, actor := some approver,
              reasonCode := some reasonCode.text } = false := by
          simp [AuditEntryInput.lacksReason, hreason]
        have hledger : (w.putRequest denied).ledger = w.ledger.after (.denied pending) := by
          rw [World.ledger_putRequest, Ledger.after_eq (fun _ _ => rfl) fun _ => rfl]
          simp [Event.issued, Event.written, Event.entries, denied, Ledger.setRequest]
        have hstep : w.Steps env (.denied pending) (w.putRequest denied) :=
          ⟨hput, ⟨hpending, hstatus⟩, hledger, le_rfl, fun hf => hf.of_breaker rfl⟩
        exact .inr ⟨pending, rfl, heligible,
          hstep.quiet ((World.Quiet.refl hput).logged hreason' rfl now), rfl⟩

/-- The timeout check never throws; it escalates the request to the backup, or does nothing. -/
theorem checkRequestTimeout_effect (h : w.Sound env) (requestId : String)
    (decisionWindowMs : JsNumber) (backupApprover : Option String) (now : Int) :
    wp (checkRequestTimeout env requestId decisionWindowMs backupApprover now) (fun r w' =>
      r = .ok () ∧ (w' = w ∨ ∃ pending backup, truthy backupApprover = some backup ∧
        pending.id = requestId ∧ pending.escalates decisionWindowMs backup now ∧
        w' = (w.putRequest { pending with assignedApprover := some backup }).logged env
          (escalationEntry pending) now ∧
        w.Steps env (.escalated pending backup) w')) w := by
  unfold checkRequestTimeout
  cases hbackup : truthy backupApprover with
  | none => exact wp_pure ⟨rfl, .inl rfl⟩
  | some backup =>
    refine wp_bind (RequestStore.wp_get ?_)
    generalize hfound : w.ledger.requests requestId = found
    cases found with
    | none => exact wp_pure ⟨rfl, .inl rfl⟩
    | some pending =>
      have hid : pending.id = requestId := h.requests.keyed _ _ hfound
      subst hid
      refine wp_ite (fun hescalates => ?_) fun _ => wp_pure ⟨rfl, .inl rfl⟩
      let escalated : PendingRequest := { pending with assignedApprover := some backup }
      have hput : (w.putRequest escalated).Sound env := h.putRequest (h.requestDrawn _ _ hfound)
      refine wp_bind (RequestStore.wp_save h (wp_auditRecord hput rfl ?_))
      refine ⟨rfl, .inr ⟨pending, backup, rfl, rfl, hescalates, rfl, hput.logged rfl now,
        ⟨hfound, hescalates.1⟩, ?_, Nat.le_succ _, fun hf => hf.of_breaker rfl⟩⟩
      rw [World.ledger_logged_noteworthy hput rfl rfl, World.ledger_putRequest,
        Ledger.after_eq (fun _ _ => rfl) fun _ => rfl]
      rfl

/-- A request that was escalated, or nothing. -/
theorem checkRequestTimeout_spec (h : w.Sound env) (requestId : String)
    (decisionWindowMs : JsNumber) (backupApprover : Option String) (now : Int) :
    wp (checkRequestTimeout env requestId decisionWindowMs backupApprover now) (fun _ w' =>
      w.Quiet env w' ∨ ∃ pending backup, backupApprover = some backup ∧ pending.id = requestId ∧
        w.Steps env (.escalated pending backup) w') w := by
  refine wp_mono (checkRequestTimeout_effect h requestId decisionWindowMs backupApprover now) ?_
  rintro r w' ⟨-, rfl | ⟨pending, backup, hbackup, hid, -, -, hstep⟩⟩
  · exact .inl (.refl h)
  · exact .inr ⟨pending, backup, (truthy_eq_some.mp hbackup).1, hid, hstep⟩

/-! ## The secret -/

/-- A claim hands out what the request holds to its submitter and takes it from the request; a claim
that is refused is quiet. -/
theorem claimTokenSecret_spec (h : w.Sound env) (requestId requestingSubject : String)
    (now : Int) :
    wp (claimTokenSecret env requestId requestingSubject now) (fun r w' =>
      (w.Quiet env w' ∧ r.isOk = false) ∨
        ∃ pending tokenId secret, pending.id = requestId ∧ pending.subject = requestingSubject ∧
          w.Steps env (.claimed pending tokenId secret) w' ∧ r = .ok (tokenId, secret)) w := by
  refine wp_bind (RequestStore.wp_get ?_)
  generalize hfound : w.ledger.requests requestId = found
  cases found with
  | none => exact wp_throw (.inl ⟨.refl h, rfl⟩)
  | some pending =>
    have hid : pending.id = requestId := h.requests.keyed _ _ hfound
    subst hid
    refine wp_ite (fun _ => wp_bind ?_) fun hsubject => ?_
    · refine wp_mono ((World.Quiet.refl h).auditRecord rfl now) fun r w' hq => ?_
      cases r with
      | error => exact .inl ⟨hq, rfl⟩
      | ok => exact wp_throw (.inl ⟨hq, rfl⟩)
    · have hsubject : pending.subject = requestingSubject := not_not.mp hsubject
      subst hsubject
      generalize hstatus : pending.status = status
      generalize htokenId : truthy pending.tokenId = tokenId
      generalize hsecret : truthy pending.tokenSecret = secret
      rcases status with _ | _ | _
      · exact wp_throw (.inl ⟨.refl h, rfl⟩)
      · rcases tokenId with _ | tokenId
        · exact wp_throw (.inl ⟨.refl h, rfl⟩)
        · rcases secret with _ | secret
          · exact wp_throw (.inl ⟨.refl h, rfl⟩)
          · let claimed : PendingRequest :=
              { pending with status := .approved, tokenSecret := none }
            have hclaimed : claimed = { pending with tokenSecret := none } := by
              simp only [claimed, ← hstatus]
            have hput : (w.putRequest claimed).Sound env :=
              h.putRequest (h.requestDrawn _ _ hfound)
            refine wp_bind (RequestStore.wp_save h (wp_bind (wp_auditRecord hput rfl ?_)))
            refine wp_pure (.inr ⟨pending, tokenId, secret, rfl, rfl, ⟨hput.logged rfl now,
              ⟨hfound, hstatus, ?_, ?_⟩, ?_, Nat.le_succ _, fun hf => hf.of_breaker rfl⟩, rfl⟩)
            · exact (truthy_eq_some.mp htokenId).1
            · exact (truthy_eq_some.mp hsecret).1
            · rw [World.ledger_logged_noteworthy hput rfl rfl, World.ledger_putRequest, hclaimed,
                Ledger.after_eq (fun _ _ => rfl) fun _ => rfl]
              rfl
      · exact wp_throw (.inl ⟨.refl h, rfl⟩)

end Ambit
