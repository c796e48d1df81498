import Ambit.AccessSpec
import Ambit.DelegationSpec
import Ambit.LineageSpec
import Ambit.RequestSpec
import Ambit.RevokeSpec
import Ambit.Runtime

/-! Calls as events of the ledger, piece by piece: what a suspended call holds, that it stays true
while other calls run, and that each piece of each call is one event. -/

namespace Ambit

open Effect

/-! ## Suspended calls -/

/-- The gateway that a call is suspended in. -/
def Frame.gateway : Frame → Option EnforceFrame
  | .enforce frame => some frame
  | .access (.enforcing _ frame) => some frame
  | .customer frame => some frame.enforce
  | _ => none

/-- A call suspended in the gateway holds a token that was read from the ledger. -/
def EnforceFrame.Sound (L : Ledger) (frame : EnforceFrame) : Prop :=
  L.HasRead frame.token ∧ frame.token.id = frame.tokenId

/-- A suspended `approveRequest` holds a request that was pending when it was read, and an approver
who could decide it. -/
structure ApproveFrame.Sound (env : Env) (L : Ledger) (supply : ℕ) (frame : ApproveFrame) :
    Prop where
  read : L.HasReadRequest frame.pending
  id_eq : frame.pending.id = frame.input.requestId
  status_eq : frame.pending.status = .pending
  eligible : frame.pending.eligible frame.input.approver
  issue : frame.issue.For env (frame.pending.tokenRequest frame.input.policyId) none supply

/-- A suspended `delegateToken` holds a parent that was read from the ledger, and in its second
await one that passed the checks. -/
def DelegateFrame.Sound (env : Env) (L : Ledger) (supply : ℕ) : DelegateFrame → Prop
  | .verifying input parent => L.HasRead parent ∧ parent.id = input.parentTokenId
  | .issuing input issue => ∃ parent, L.HasRead parent ∧ input.Passes parent ∧
      issue.For env input.tokenRequest (some parent) supply

/-- What a suspended call holds is true of the ledger. -/
def Frame.Holds (env : Env) (L : Ledger) (supply : ℕ) : Frame → Prop
  | .approve frame => frame.Sound env L supply
  | .delegate frame => frame.Sound env L supply
  | .enforce frame => frame.Sound L
  | .access (.enforcing _ frame) => frame.Sound L
  | .access (.calling _ _) | .access (.sleeping _ _) => True
  | .customer frame => frame.enforce.Sound L
  | .register _ | .authenticate _ => True

/-- The frames that a call can be suspended in. -/
def Call.Awaits : Call → Frame → Prop
  | .approveRequest input, .approve frame => frame.input = input
  | .delegateToken _, .delegate _ => True
  | .enforceToken _ _ _ _, .enforce _ => True
  | .accessMockEndpoint _, .access _ => True
  | .accessCustomerData _, .customer _ => True
  | .registerAgentIdentity _ _ _, .register _ => True
  | .authenticateAgent _, .authenticate _ => True
  | _, _ => False

/-- A suspended call is in one of its frames, and the frame holds what is true of the ledger. -/
structure Frame.Sound (env : Env) (L : Ledger) (supply : ℕ) (call : Call) (frame : Frame) :
    Prop where
  awaits : call.Awaits frame
  holds : frame.Holds env L supply

variable {env : Env} {w : World} {L : Ledger} {e : Event}

theorem Frame.Holds.gateway {supply : ℕ} {frame : Frame} {enforce : EnforceFrame}
    (h : frame.Holds env L supply) (hgateway : frame.gateway = some enforce) :
    enforce.Sound L := by
  cases frame with
  | enforce =>
    cases hgateway
    exact h
  | access frame =>
    cases frame with
    | enforcing =>
      cases hgateway
      exact h
    | _ => cases hgateway
  | customer =>
    cases hgateway
    exact h
  | _ => cases hgateway

theorem Frame.Holds.after {p : Platform} {m n : ℕ} {frame : Frame} (h : frame.Holds env L m)
    (he : L.Enabled p e) (hrun : e ≠ .restarted) (hle : m ≤ n) :
    frame.Holds env (L.after e) n := by
  cases frame with
  | approve frame =>
    exact ⟨h.read.after he, h.id_eq, h.status_eq, h.eligible, h.issue.mono hle⟩
  | delegate frame =>
    cases frame with
    | verifying => exact ⟨h.1.after he hrun, h.2⟩
    | issuing =>
      obtain ⟨parent, hread, hpasses, hissue⟩ := h
      exact ⟨parent, hread.after he hrun, hpasses, hissue.mono hle⟩
  | enforce => exact ⟨h.1.after he hrun, h.2⟩
  | access frame =>
    cases frame with
    | enforcing => exact ⟨h.1.after he hrun, h.2⟩
    | _ => trivial
  | customer => exact ⟨h.1.after he hrun, h.2⟩
  | _ => trivial

/-- Suspended calls stay sound while others run. -/
theorem Frame.Sound.after {p : Platform} {m n : ℕ} {call : Call} {frame : Frame}
    (h : frame.Sound env L m call) (he : L.Enabled p e) (hrun : e ≠ .restarted) (hle : m ≤ n) :
    frame.Sound env (L.after e) n call :=
  ⟨h.awaits, h.holds.after he hrun hle⟩

theorem Ledger.HasRead.of_stored {t : Token} {i : String} (ht : L.tokens i = some t)
    (hid : t.id = i) : L.HasRead t := ⟨t, hid ▸ ht, .refl t⟩

theorem EnforceFrame.For.sound (h : w.Sound env) {tokenId providedSecret action : String}
    {now : Int} {frame : EnforceFrame}
    (hfor : frame.For w.ledger tokenId providedSecret action now) :
    frame.Sound w.ledger := by
  have hid := h.tokens.keyed _ _ hfor.token_eq
  exact ⟨.of_stored hfor.token_eq hid, hid.trans hfor.tokenId_eq.symm⟩

/-- The issuance that a call is suspended in. -/
def Frame.issuance : Frame → Option IssueFrame
  | .approve frame => some frame.issue
  | .delegate (.issuing _ issue) => some issue
  | _ => none

/-- A call that starts: the request of an approval is the stored one, and its secret is new. -/
def Frame.Starts (env : Env) (w : World) : Frame → Prop
  | .approve frame => w.ledger.requests frame.input.requestId = some frame.pending ∧
      frame.issue.DrawnFrom env w.supply
  | .delegate (.issuing _ _) => False
  | _ => True

/-- A call that goes on: an approval has only one await, and the secret of a delegation is new. -/
def Frame.GoesOn (env : Env) (w : World) : Frame → Prop
  | .approve _ => False
  | .delegate (.issuing _ issue) => issue.DrawnFrom env w.supply
  | _ => True

/-! ## What a piece of a call does -/

/-- The outcome of a piece that ends its call. -/
def outcomeOf : Except Err (Progress Frame Outcome) → Option Outcome
  | .ok (.returned outcome) => some outcome
  | .ok (.awaiting _) => none
  | .error err => some (.failed err)

/-- The outcomes that a call has only together with its event. -/
def Call.Effective : Call → Outcome → Prop
  | .approveRequest _, .token _ => True
  | .denyRequest _ _ _ _, .done => True
  | _, .claimed _ _ => True
  | _, .delegation (.approved _ _) => True
  | _, _ => False

/-- The outcomes that each call can end with. -/
def Call.Answers : Call → Outcome → Prop
  | _, .failed _ => True
  | .requestToken _ _ _, .request _ => True
  | .approveRequest _, .token _ | .revokeToken _ _ _ _, .token _ => True
  | .denyRequest _ _ _ _, .done | .checkRequestTimeout _ _ _ _, .done => True
  | .claimTokenSecret _ _ _, .claimed _ _ => True
  | .delegateToken _, .delegation _ => True
  | .enforceToken _ _ _ _, .enforcement _ => True
  | .accessMockEndpoint _, .access _ => True
  | .accessCustomerData _, .customer _ => True
  | .getTokenLineage _, .lineage _ => True
  | .createPolicy _ _ _, .policy _ | .modifyPolicy _ _ _ _, .policy _ => True
  | .createRedactionRule _ _ _, .rule _ => True
  | .registerAgentIdentity _ _ _, .registered _ _ => True
  | .authenticateAgent _, .identity _ => True
  | .recordLogin _ _ _, .done | .simulateOutage _, .done => True
  | .recordOutageToggle _ _, .done | .setDown _ _, .done => True
  | _, _ => False

/-- A piece without an event ends its call with nothing achieved, or finds a stored request. -/
def Call.Idle (w : World) (call : Call) (outcome : Option Outcome) : Prop :=
  ∀ o ∈ outcome, ¬ call.Effective o ∧ ∀ r, o = .request r →
    ∃ request primaryApprover now, call = .requestToken request primaryApprover now ∧
      existingRequest w request = some r

/-- The calls that can begin with an event. -/
def Call.Explains (w : World) (call : Call) (outcome : Option Outcome) : Event → Prop
  | .noted => call.Idle w outcome
  | .submitted r => ∃ request primaryApprover now, call = .requestToken request primaryApprover now ∧
      r = request.pending primaryApprover now r.id ∧ ∀ r', outcome = some (.request r') → r' = r
  | .denied pending => ∃ approver reasonCode now,
      call = .denyRequest pending.id approver reasonCode now ∧ pending.eligible approver ∧
        outcome = some .done
  | .escalated pending backup => ∃ decisionWindowMs now,
      call = .checkRequestTimeout pending.id decisionWindowMs (some backup) now
  | .claimed r tokenId secret => ∃ now,
      call = .claimTokenSecret r.id r.subject now ∧ outcome = some (.claimed tokenId secret)
  | .revoked rev => call = .revokeToken rev.tokenId rev.reasonCode rev.now rev.actor
  | _ => False

/-- The suspended calls that can go on with an event. -/
def Frame.Explains (env : Env) (w : World) (call : Call) (frame : Frame)
    (outcome : Option Outcome) : Event → Prop
  | .noted => call.Idle w outcome
  | .approved pending token secret approver policyId => ∃ f, frame = .approve f ∧
      ¬ w.Rejects env ∧ f.pending = pending ∧ f.input.approver = approver ∧
        f.input.policyId = policyId ∧ f.issue.token env token.id = token ∧ f.issue.secret = secret ∧
          outcome = some (.token token)
  | .delegated parent token => ∃ input issue, frame = .delegate (.issuing input issue) ∧
      ¬ w.Rejects env ∧ input.Passes parent ∧ issue.token env token.id = token ∧
        issue.For env input.tokenRequest (some parent) w.supply ∧
          outcome = some (.delegation (.approved token issue.secret))
  | .used token action now => ∃ f, frame.gateway = some f ∧ f.Allows env ∧ f.token = token ∧
      f.action = action ∧ f.now = now ∧ call.Idle w outcome
  | _ => False

/-- A piece of a call takes the process one event further, and hands on a sound frame that
satisfies `F`. -/
structure Ran (env : Env) (w : World) (call : Call) (F : Frame → Prop) (e : Event)
    (r : Except Err (Progress Frame Outcome)) (w' : World) : Prop where
  sound : w'.Sound env
  enabled : w.ledger.Enabled env.toPlatform e
  ledger_eq : w'.ledger = w.ledger.after e
  supply_le : w.supply ≤ w'.supply
  flows : call ≠ .simulateOutage true → w.Flowing → w'.Flowing
  frame : OnOk (Progress.OnFrame fun frame =>
    frame.Sound env w'.ledger w'.supply call ∧ F frame) r

variable {w' : World} {call : Call} {r : Except Err (Progress Frame Outcome)} {α : Type}
  {F : Frame → Prop}

theorem World.Steps.ran (h : w.Steps env e w')
    (hframe : OnOk (Progress.OnFrame fun frame =>
      frame.Sound env w'.ledger w'.supply call ∧ F frame) r) :
    Ran env w call F e r w' :=
  ⟨h.sound, h.enabled, h.ledger_eq, h.supply_le, fun _ => h.flows, hframe⟩

/-- A quiet piece that hands out neither an effect nor a request. -/
theorem World.Quiet.ran (h : w.Quiet env w')
    (hframe : OnOk (Progress.OnFrame fun frame =>
      frame.Sound env w'.ledger w'.supply call ∧ F frame) r)
    (hidle : call.Idle w (outcomeOf r)) :
    ∃ e, Ran env w call F e r w' ∧ call.Explains w (outcomeOf r) e :=
  ⟨.noted, h.steps.ran hframe, hidle⟩

theorem Call.idle_failed (err : Err) : call.Idle w (some (.failed err)) := by
  intro o ho
  cases ho
  refine ⟨fun h => ?_, fun r hr => by cases hr⟩
  cases call <;> exact h

theorem Call.idle_none : call.Idle w none := fun o ho => by cases ho

/-- A call that never awaits, by what its operation does. -/
theorem wp_synchronously {op : Op α} {outcome : α → Outcome}
    (h : wp op (fun r w' => ∃ e,
      Ran env w call F e (r.map fun a => .returned (outcome a)) w' ∧
        call.Explains w (outcomeOf (r.map fun a => .returned (outcome a))) e) w) :
    wp (synchronously op outcome) (fun r w' => ∃ e, Ran env w call F e r w' ∧
      call.Explains w (outcomeOf r) e) w := by
  refine wp_bind (wp_mono h fun r w' hr => ?_)
  cases r with
  | error => exact hr
  | ok => exact wp_pure hr

/-- A quiet call that never awaits and has no effect. -/
theorem wp_synchronously_quiet {op : Op α} {outcome : α → Outcome} {P : α → Prop} (h : w.Sound env)
    (hop : Quietly env op P) (hidle : ∀ a, call.Idle w (some (outcome a))) :
    wp (synchronously op outcome) (fun r w' => ∃ e, Ran env w call F e r w' ∧
      call.Explains w (outcomeOf r) e) w := by
  refine wp_synchronously (wp_mono (hop w h) fun r w' ⟨hq, _⟩ => ?_)
  cases r with
  | error err => exact hq.ran trivial (call.idle_failed err)
  | ok a => exact hq.ran trivial (hidle a)

theorem Call.idle_some {o : Outcome} (heffective : ¬ call.Effective o)
    (hrequest : ∀ r, o ≠ .request r) : call.Idle w (some o) := by
  intro o' ho
  cases ho
  exact ⟨heffective, fun r hr => absurd hr (hrequest r)⟩

/-- A quiet piece that stops at a frame. -/
theorem World.Quiet.ran_awaiting {frame : Frame} (h : w.Quiet env w')
    (hframe : frame.Sound env w'.ledger w'.supply call) (hF : F frame) :
    ∃ e, Ran env w call F e (.ok (.awaiting frame)) w' ∧
      call.Explains w (outcomeOf (.ok (.awaiting frame))) e :=
  h.ran ⟨hframe, hF⟩ Call.idle_none

/-- **A call is one event up to its first await.** -/
theorem startCall_spec (h : w.Sound env) (call : Call) :
    wp (startCall env call) (fun r w' => ∃ e, Ran env w call (Frame.Starts env w) e r w' ∧
      call.Explains w (outcomeOf r) e) w := by
  cases call with
  | requestToken request primaryApprover now =>
    refine wp_synchronously (wp_mono (requestToken_spec h request primaryApprover now) ?_)
    rintro r w' (⟨hq, hr⟩ | ⟨id, hstep, hr⟩)
    · cases r with
      | error err => exact hq.ran trivial (Call.idle_failed err)
      | ok found =>
        refine hq.ran trivial fun o ho => ?_
        cases ho
        refine ⟨fun h => h, fun r' hr' => ?_⟩
        cases hr'
        exact ⟨request, primaryApprover, now, rfl, hr⟩
    · refine ⟨_, hstep.ran (by cases r <;> trivial), request, primaryApprover, now, rfl, rfl, ?_⟩
      intro r' hr'
      cases r with
      | error => cases hr'
      | ok pending =>
        cases hr'
        exact hr
  | approveRequest input =>
    refine wp_bind (wp_mono (approveRequest_spec h input) fun r w' ⟨hq, hr⟩ => ?_)
    cases r with
    | error err => exact hq.ran trivial (Call.idle_failed err)
    | ok frame =>
      obtain ⟨hr, hdrawn⟩ := hr
      obtain rfl := hr.input_eq
      refine wp_pure (hq.ran_awaiting ?_ ⟨hr.pending_eq, hdrawn⟩)
      have hid := h.requests.keyed _ _ hr.pending_eq
      have hread : w.ledger.HasReadRequest frame.pending :=
        ⟨frame.pending, hid ▸ hr.pending_eq, .refl _⟩
      rw [hq.ledger_eq]
      exact ⟨rfl, hread, hid, hr.status_eq, hr.eligible, hr.issue⟩
  | denyRequest requestId approver reasonCode now =>
    refine wp_synchronously (wp_mono (denyRequest_spec h requestId approver reasonCode now) ?_)
    rintro r w' (⟨hq, hr⟩ | ⟨pending, rfl, heligible, hstep, rfl⟩)
    · cases r with
      | error err => exact hq.ran trivial (Call.idle_failed err)
      | ok => cases hr
    · exact ⟨_, hstep.ran trivial, approver, reasonCode, now, rfl, heligible, rfl⟩
  | checkRequestTimeout requestId decisionWindowMs backupApprover now =>
    refine wp_synchronously (wp_mono (checkRequestTimeout_spec h requestId decisionWindowMs
      backupApprover now) ?_)
    rintro r w' (hq | ⟨pending, backup, rfl, rfl, hstep⟩)
    · cases r with
      | error err => exact hq.ran trivial (Call.idle_failed err)
      | ok => exact hq.ran trivial (Call.idle_some (fun h => h) fun _ => Outcome.noConfusion)
    · exact ⟨_, hstep.ran (by cases r <;> trivial), decisionWindowMs, now, rfl⟩
  | claimTokenSecret requestId requestingSubject now =>
    refine wp_synchronously (wp_mono (claimTokenSecret_spec h requestId requestingSubject now) ?_)
    rintro r w' (⟨hq, hr⟩ | ⟨pending, tokenId, secret, rfl, rfl, hstep, rfl⟩)
    · cases r with
      | error err => exact hq.ran trivial (Call.idle_failed err)
      | ok => cases hr
    · exact ⟨_, hstep.ran trivial, now, rfl, rfl⟩
  | delegateToken input =>
    refine wp_bind (wp_mono (delegateToken_spec h input) fun r w' ⟨hq, hr⟩ => ?_)
    rcases r with err | decision | frame
    · exact hq.ran trivial (Call.idle_failed err)
    · refine wp_pure (hq.ran trivial (Call.idle_some ?_ fun _ => Outcome.noConfusion))
      cases decision with
      | approved => exact hr.elim
      | denied => exact fun h => h
    · obtain ⟨parent, rfl, hparent⟩ := hr
      refine wp_pure (hq.ran_awaiting ?_ trivial)
      have hid := h.tokens.keyed _ _ hparent
      rw [hq.ledger_eq]
      exact ⟨trivial, .of_stored hparent hid, hid⟩
  | enforceToken tokenId providedSecret action now =>
    refine wp_bind (wp_mono (enforceToken_spec h ..) fun r w' ⟨hq, hr⟩ => ?_)
    rcases r with err | decision | frame
    · exact hq.ran trivial (Call.idle_failed err)
    · exact wp_pure (hq.ran trivial (Call.idle_some (fun h => h) fun _ => Outcome.noConfusion))
    · refine wp_pure (hq.ran_awaiting ?_ trivial)
      rw [hq.ledger_eq]
      exact ⟨trivial, EnforceFrame.For.sound h hr⟩
  | accessMockEndpoint input =>
    refine wp_bind (wp_mono (accessMockEndpoint_spec h input) fun r w' ⟨hq, hr⟩ => ?_)
    rcases r with err | result | frame
    · exact hq.ran trivial (Call.idle_failed err)
    · exact wp_pure (hq.ran trivial (Call.idle_some (fun h => h) fun _ => Outcome.noConfusion))
    · refine wp_pure (hq.ran_awaiting ?_ trivial)
      rw [hq.ledger_eq]
      cases frame with
      | enforcing => exact ⟨trivial, EnforceFrame.For.sound h hr.2⟩
      | _ => exact ⟨trivial, trivial⟩
  | accessCustomerData input =>
    refine wp_bind (wp_mono (accessCustomerData_spec h input) fun r w' ⟨hq, hr⟩ => ?_)
    rcases r with err | result | frame
    · exact hq.ran trivial (Call.idle_failed err)
    · exact wp_pure (hq.ran trivial (Call.idle_some (fun h => h) fun _ => Outcome.noConfusion))
    · refine wp_pure (hq.ran_awaiting ?_ trivial)
      rw [hq.ledger_eq]
      exact ⟨trivial, hr.enforce.sound h⟩
  | revokeToken tokenId reasonCode now actor =>
    refine wp_synchronously (wp_mono (World.revokeToken_spec h tokenId reasonCode now actor) ?_)
    rintro r w' (⟨hq, hr⟩ | ⟨revoked, hstep⟩)
    · cases r with
      | error err => exact hq.ran trivial (Call.idle_failed err)
      | ok => cases hr
    · exact ⟨_, hstep.ran (by cases r <;> trivial), rfl⟩
  | getTokenLineage tokenId =>
    refine wp_bind (wp_get (wp_synchronously_quiet h (getTokenLineage_quietly _ tokenId) ?_))
    exact fun _ => Call.idle_some (fun h => h) fun _ => Outcome.noConfusion
  | createPolicy input authoredBy now =>
    refine wp_synchronously_quiet h (createPolicy_quietly input authoredBy now) fun _ => ?_
    exact Call.idle_some (fun h => h) fun _ => Outcome.noConfusion
  | modifyPolicy policyId changes authoredBy now =>
    refine wp_synchronously_quiet h (modifyPolicy_quietly policyId changes authoredBy now) ?_
    exact fun _ => Call.idle_some (fun h => h) fun _ => Outcome.noConfusion
  | createRedactionRule input authoredBy now =>
    refine wp_synchronously_quiet h (createRedactionRule_quietly input authoredBy now) fun _ => ?_
    exact Call.idle_some (fun h => h) fun _ => Outcome.noConfusion
  | registerAgentIdentity subject createdBy now =>
    refine wp_bind (wp_mono (registerAgentIdentity_quietly subject createdBy now w h) ?_)
    intro r w' ⟨hq, _⟩
    cases r with
    | error err => exact hq.ran trivial (Call.idle_failed err)
    | ok frame => exact wp_pure (hq.ran_awaiting ⟨trivial, trivial⟩ trivial)
  | authenticateAgent credential =>
    refine wp_bind (wp_mono (authenticateAgent_quietly credential w h) fun r w' ⟨hq, _⟩ => ?_)
    rcases r with err | identity | frame
    · exact hq.ran trivial (Call.idle_failed err)
    · exact wp_pure (hq.ran trivial (Call.idle_some (fun h => h) fun _ => Outcome.noConfusion))
    · exact wp_pure (hq.ran_awaiting ⟨trivial, trivial⟩ trivial)
  | recordLogin username matched now =>
    have hlogin : Quietly env (recordLogin env username matched now) fun _ => True :=
      .ite (fun _ => .auditRecord rfl now) fun _ => .auditRecord rfl now
    refine wp_synchronously_quiet h hlogin fun _ => ?_
    exact Call.idle_some (fun h => h) fun _ => Outcome.noConfusion
  | simulateOutage down =>
    refine wp_synchronously (wp_modify ⟨.noted, ⟨?_, trivial, ?_, le_rfl, ?_, trivial⟩, ?_⟩)
    · exact h.withBreaker _
    · exact (World.Quiet.refl h).steps.ledger_eq
    · intro hcall hflow
      have hdown : down = false := by
        cases down with
        | false => rfl
        | true => exact absurd rfl hcall
      subst hdown
      exact ⟨hflow.closed, hflow.noFailures, rfl⟩
    · exact Call.idle_some (fun h => h) fun _ => Outcome.noConfusion
  | recordOutageToggle down now =>
    have htoggle : Quietly env (recordOutageToggle env down now) fun _ => True :=
      .auditRecord (by cases down <;> rfl) now
    refine wp_synchronously_quiet h htoggle fun _ => ?_
    exact Call.idle_some (fun h => h) fun _ => Outcome.noConfusion
  | setDown system down =>
    have hdown : Quietly env (setDown system down) fun _ => True := by
      intro w h
      refine wp_modify ⟨⟨?_, rfl, le_rfl, fun hf => hf.of_breaker rfl⟩, trivial⟩
      exact ⟨h.faults, h.kept, h.tokens, h.requests, h.tokenDrawn, h.requestDrawn⟩
    refine wp_synchronously_quiet h hdown fun _ => ?_
    exact Call.idle_some (fun h => h) fun _ => Outcome.noConfusion

theorem EnforceFrame.explains_event {frame : Frame} {enforce : EnforceFrame}
    {outcome : Option Outcome} (hgateway : frame.gateway = some enforce)
    (hidle : call.Idle w outcome) : frame.Explains env w call outcome (enforce.event env) := by
  unfold EnforceFrame.event
  split
  · exact ⟨enforce, hgateway, ‹_›, rfl, rfl, rfl, hidle⟩
  · exact hidle

theorem AccessFrame.PastGateway.holds {frame : AccessFrame} (h : frame.PastGateway) {n : ℕ} :
    (Frame.access frame).Holds env L n := by
  cases frame with
  | enforcing => exact h.elim
  | _ => trivial

/-- A call stays in frames of one kind. -/
theorem Call.Awaits.access {frame frame' : AccessFrame} (h : call.Awaits (.access frame)) :
    call.Awaits (.access frame') := by
  cases call <;> exact h

theorem Call.Awaits.delegate {frame frame' : DelegateFrame} (h : call.Awaits (.delegate frame)) :
    call.Awaits (.delegate frame') := by
  cases call <;> exact h

/-- The piece of an access from an event of the gateway on. -/
theorem wp_access {frame : AccessFrame} {downstream : Downstream}
    (hawaits : call.Awaits (.access frame))
    (h : wp (frame.resume env downstream) (fun r w' => w.Steps env e w' ∧
      OnOk (Progress.OnFrame AccessFrame.PastGateway) r) w)
    (hexplains : ∀ outcome, call.Idle w outcome →
      (Frame.access frame).Explains env w call outcome e) :
    wp (resumeFrame env downstream (.access frame)) (fun r w' =>
      ∃ e, Ran env w call (Frame.GoesOn env w) e r w' ∧
      (Frame.access frame).Explains env w call (outcomeOf r) e) w := by
  refine wp_bind (wp_mono h fun r w' ⟨hstep, hr⟩ => ?_)
  rcases r with err | result | frame
  · exact ⟨e, hstep.ran trivial, hexplains _ (Call.idle_failed err)⟩
  · refine wp_pure ⟨e, hstep.ran trivial, hexplains _ (Call.idle_some ?_ fun _ => ?_)⟩
    · exact fun h => by cases call <;> exact h
    · exact Outcome.noConfusion
  · exact wp_pure ⟨e, hstep.ran ⟨⟨hawaits.access, hr.holds⟩, trivial⟩, hexplains _ Call.idle_none⟩

/-- **A suspended call is one event up to its next await.** -/
theorem resumeFrame_spec (h : w.Sound env) (downstream : Downstream) {frame : Frame}
    (hframe : frame.Sound env w.ledger w.supply call) :
    wp (resumeFrame env downstream frame) (fun r w' => ∃ e, Ran env w call (Frame.GoesOn env w) e r w' ∧
      frame.Explains env w call (outcomeOf r) e) w := by
  obtain ⟨hawaits, hframe⟩ := hframe
  cases frame with
  | approve frame =>
    have hspec := frame.resume_spec h hframe.read hframe.id_eq hframe.issue
    refine wp_bind (wp_mono hspec ?_)
    rintro r w' (⟨hq, -, hr⟩ | ⟨hadmits, id, hstep, rfl⟩)
    · cases r with
      | error err => exact ⟨_, hq.steps.ran trivial, Call.idle_failed err⟩
      | ok => cases hr
    · exact wp_pure ⟨_, hstep.ran trivial, frame, rfl, hadmits, rfl, rfl, rfl, rfl, rfl, rfl⟩
  | delegate frame =>
    cases frame with
    | verifying input parent =>
      obtain ⟨hread, hid⟩ := hframe
      refine wp_bind (wp_mono (DelegateFrame.resume_verifying_spec h hread hid) ?_)
      intro r w' ⟨hq, hr⟩
      rcases r with err | decision | frame
      · exact ⟨_, hq.steps.ran trivial, Call.idle_failed err⟩
      · refine wp_pure ⟨_, hq.steps.ran trivial,
          Call.idle_some ?_ fun _ => Outcome.noConfusion⟩
        cases decision with
        | approved => exact hr.elim
        | denied => exact fun h => by cases call <;> exact h
      · obtain ⟨issue, rfl, hpasses, hissue, hdrawn⟩ := hr
        refine wp_pure ⟨_, hq.steps.ran ?_, Call.idle_none⟩
        rw [hq.ledger_eq]
        exact ⟨⟨hawaits.delegate, parent, hread, hpasses, hissue⟩, hdrawn⟩
    | issuing input issue =>
      obtain ⟨parent, hread, hpasses, hissue⟩ := hframe
      refine wp_bind (wp_mono (DelegateFrame.resume_issuing_spec h hread hpasses hissue) ?_)
      rintro r w' (⟨hq, hr⟩ | ⟨hadmits, id, hstep, rfl⟩)
      · rcases r with err | decision | frame
        · exact ⟨_, hq.steps.ran trivial, Call.idle_failed err⟩
        · refine wp_pure ⟨_, hq.steps.ran trivial,
            Call.idle_some ?_ fun _ => Outcome.noConfusion⟩
          cases decision with
          | approved => exact hr.elim
          | denied => exact fun h => by cases call <;> exact h
        · exact hr.elim
      · exact wp_pure ⟨_, hstep.ran trivial, input, issue, rfl, hadmits, hpasses, rfl, hissue, rfl⟩
  | enforce frame =>
    refine wp_bind (wp_mono (frame.resume_spec h hframe.1) ?_)
    rintro r w' ⟨hstep, decision, rfl, -⟩
    refine wp_pure ⟨_, hstep.ran trivial, EnforceFrame.explains_event rfl ?_⟩
    exact Call.idle_some (fun h => by cases call <;> exact h) fun _ => Outcome.noConfusion
  | access frame =>
    have hquiet : frame.PastGateway → wp (frame.resume env downstream) (fun r w' =>
        w.Steps env .noted w' ∧ OnOk (Progress.OnFrame AccessFrame.PastGateway) r) w :=
      fun hpast => wp_mono (AccessFrame.resume_quietly hpast downstream w h)
        fun r w' ⟨hq, hr⟩ => ⟨hq.steps, hr⟩
    cases frame with
    | enforcing input enforce =>
      exact wp_access hawaits (AccessFrame.resume_enforcing_spec h hframe.1 downstream)
        fun _ => EnforceFrame.explains_event rfl
    | calling => exact wp_access hawaits (hquiet trivial) fun _ hidle => hidle
    | sleeping => exact wp_access hawaits (hquiet trivial) fun _ hidle => hidle
  | customer frame =>
    refine wp_bind (wp_mono (frame.resume_spec h hframe.1) fun r w' hstep => ?_)
    cases r with
    | error err =>
      exact ⟨_, hstep.ran trivial, EnforceFrame.explains_event rfl (Call.idle_failed err)⟩
    | ok =>
      refine wp_pure ⟨_, hstep.ran trivial, EnforceFrame.explains_event rfl ?_⟩
      exact Call.idle_some (fun h => by cases call <;> exact h) fun _ => Outcome.noConfusion
  | register frame =>
    refine wp_bind (wp_mono (frame.resume_quietly w h) fun r w' ⟨hq, _⟩ => ?_)
    cases r with
    | error err => exact ⟨_, hq.steps.ran trivial, Call.idle_failed err⟩
    | ok =>
      refine wp_pure ⟨_, hq.steps.ran trivial, Call.idle_some ?_ fun _ => Outcome.noConfusion⟩
      exact fun h => by cases call <;> exact h
  | authenticate frame =>
    refine wp_pure ⟨_, (World.Quiet.refl h).steps.ran trivial,
      Call.idle_some ?_ fun _ => Outcome.noConfusion⟩
    exact fun h => by cases call <;> exact h

/-! ## What a call can answer -/

/-- The piece ends its call, if it does, with an outcome of the call. -/
def Call.AnswersIn (call : Call) (r : Except Err (Progress Frame Outcome)) : Prop :=
  ∀ o ∈ outcomeOf r, call.Answers o

theorem Call.answersIn_error (err : Err) : call.AnswersIn (.error err) := by
  intro o ho
  cases ho
  cases call <;> trivial

theorem wp_synchronously_answers {op : Op α} {outcome : α → Outcome}
    (h : ∀ a, call.Answers (outcome a)) :
    wp (synchronously op outcome) (fun r _ => call.AnswersIn r) w := by
  refine wp_bind (wp_any fun r w' => ?_)
  cases r with
  | error err => exact call.answersIn_error err
  | ok a =>
    refine wp_pure fun o ho => ?_
    cases ho
    exact h a

theorem wp_progress_answers {φ : Type} {op : Op (Progress φ α)} {onFrame : φ → Frame}
    {onValue : α → Outcome} (h : ∀ a, call.Answers (onValue a)) :
    wp (do return (← op).map onFrame onValue) (fun r _ => call.AnswersIn r) w := by
  refine wp_bind (wp_any fun r w' => ?_)
  rcases r with err | a | frame
  · exact call.answersIn_error err
  · refine wp_pure fun o ho => ?_
    cases ho
    exact h a
  · exact wp_pure fun o ho => by cases ho

theorem wp_awaiting_answers {op : Op α} {onFrame : α → Frame} :
    wp (do return Progress.awaiting (onFrame (← op))) (fun r _ => call.AnswersIn r) w := by
  refine wp_bind (wp_any fun r w' => ?_)
  cases r with
  | error err => exact call.answersIn_error err
  | ok a => exact wp_pure fun o ho => by cases ho

theorem startCall_answers (call : Call) :
    wp (startCall env call) (fun r _ => call.AnswersIn r) w := by
  cases call with
  | approveRequest | registerAgentIdentity => exact wp_awaiting_answers
  | delegateToken | enforceToken | accessMockEndpoint | accessCustomerData | authenticateAgent =>
    exact wp_progress_answers fun _ => trivial
  | getTokenLineage => exact wp_bind (wp_get (wp_synchronously_answers fun _ => trivial))
  | _ => exact wp_synchronously_answers fun _ => trivial

theorem resumeFrame_answers (downstream : Downstream) {frame : Frame} (h : call.Awaits frame) :
    wp (resumeFrame env downstream frame) (fun r _ => call.AnswersIn r) w := by
  cases frame with
  | approve | enforce | customer | register =>
    refine wp_synchronously_answers fun _ => ?_
    cases call <;> trivial
  | delegate | access =>
    refine wp_progress_answers fun _ => ?_
    cases call <;> trivial
  | authenticate =>
    refine wp_pure fun o ho => ?_
    cases ho
    cases call <;> trivial

end Ambit
