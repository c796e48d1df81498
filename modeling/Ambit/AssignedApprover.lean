import Ambit.AuditFailures
import Ambit.OneAtATime
import Ambit.Refinement

/-! Who decides a request: the approver it is assigned to, the primary one until the decision window
has passed and the backup, if there is one, from its escalation on. -/

namespace Ambit

open Effect

/-- What the server is started with. `envNumber` lets no window through that is not finite. -/
structure Desk where
  primaryApprover : Option String
  backupApprover : Option String
  decisionWindowMs : ℚ

inductive Verdict where
  | approve (policyId : Option String)
  | deny (reasonCode : DenialReason)

/-- What is done at the desk, one thing at a time. -/
inductive DeskAction where
  | submit (request : SubmittedRequest) (now : Int)
  | decide (requestId approver : String) (verdict : Verdict) (checkedAt now : Int)
  | claim (requestId requestingSubject : String) (now : Int)
  | clock (t : Int)
  | restart

section
variable (env : Env) (desk : Desk)

def checkThisRequestTimeout (requestId : String) (now : Int) : Op Unit :=
  checkRequestTimeout env requestId (.finite desk.decisionWindowMs) desk.backupApprover now

/-- The call of `approveRequest` or `denyRequest`. -/
def Verdict.attempt (requestId approver : String) (now : Int) : Verdict → Op Unit
  | .approve policyId => do
    let _ ← approveAtOnce env { requestId, approver, policyId, now }
  | .deny reasonCode => denyRequest env requestId approver reasonCode now

/-- What the approve and deny routes run. -/
def decideRequest (requestId approver : String) (verdict : Verdict) (checkedAt now : Int) :
    Op Unit := do
  checkThisRequestTimeout env desk requestId checkedAt
  verdict.attempt env requestId approver now

def DeskAction.exec (w : World) : DeskAction → World
  | .submit request now => after (requestToken env request desk.primaryApprover now) w
  | .decide requestId approver verdict checkedAt now =>
    after (decideRequest env desk requestId approver verdict checkedAt now) w
  | .claim requestId requestingSubject now =>
    after (claimTokenSecret env requestId requestingSubject now) w
  | .clock t => { w with clock := t }
  | .restart => (w.restart env).boot env

/-- Every run at the desk of a server that starts on an empty data directory. -/
def deskMachine : Machine World DeskAction where
  init := World.initial.boot env
  step := DeskAction.exec env desk

/-- The state in which a decision is made, after its own timeout check. -/
def World.checked (w : World) (requestId : String) (checkedAt : Int) : World :=
  after (checkThisRequestTimeout env desk requestId checkedAt) w

end

/-- The request that an event decides. -/
def Event.decided : Event → Option String
  | .approved pending _ _ _ _ | .denied pending => some pending.id
  | _ => none

/-- An escalation entry of the request `i`. -/
def escalates (i : String) (e : AuditEntryInput) : Bool :=
  e.requestId = some i ∧ e.decision = .requestEscalated

theorem escalates_eq_true {i : String} {e : AuditEntryInput} :
    escalates i e = true ↔ e.requestId = some i ∧ e.decision = .requestEscalated := by
  simp [escalates]

/-! ## In the ledger -/

namespace Ledger

variable {p : Platform} {L : Ledger} {e : Event} {backup : Option String} {i : String}

/-- An event of one thing at a time: a request that is approved is the stored one, and a request is
escalated to the backup, and not twice. -/
def DecidesStored (L : Ledger) (backup : Option String) : Event → Prop
  | .approved pending _ _ _ _ => L.requests pending.id = some pending
  | .escalated pending b => backup = some b ∧ pending.assignedApprover ≠ some b
  | _ => True

/-- The assignment of a stored request changes only in its escalation. -/
theorem Enabled.assignment_stays {r : PendingRequest} (he : L.Enabled p e)
    (hstored : L.DecidesStored backup e) (hr : L.requests i = some r)
    (hno : ∀ pending b, e = .escalated pending b → pending.id ≠ i) :
    ∃ r', (L.after e).requests i = some r' ∧ r'.assignedApprover = r.assignedApprover := by
  cases hw : e.written.filter (·.id = i) with
  | none => exact ⟨changedRequest e r, by simp [after, hw, hr], by cases e <;> rfl⟩
  | some r' =>
    obtain ⟨hwritten, hid⟩ := Option.filter_eq_some_iff.mp hw
    have hid : r'.id = i := of_decide_eq_true hid
    subst hid
    refine ⟨r', by simp [after, hw], ?_⟩
    cases e with
    | submitted =>
      cases hwritten
      rw [he.1] at hr
      cases hr
    | approved pending =>
      cases hwritten
      cases hstored.symm.trans hr
      rfl
    | denied pending =>
      cases hwritten
      cases he.1.symm.trans hr
      rfl
    | escalated pending b =>
      cases hwritten
      exact absurd rfl (hno pending b rfl)
    | claimed r₀ =>
      cases hwritten
      cases he.1.symm.trans hr
      rfl
    | _ => cases hwritten

/-- Each request is escalated at most once, and then it is the backup's. -/
structure EscalatedOnce (L : Ledger) (backup : Option String) : Prop where
  once : ∀ i, L.log.countP (escalates i) ≤ 1
  assigned : ∀ i, L.log.countP (escalates i) ≠ 0 → ∃ r b, L.requests i = some r ∧
    backup = some b ∧ r.assignedApprover = some b

/-- The event that writes an escalation entry. -/
theorem escalation_of_mem_entries {a : AuditEntryInput} (ha : a ∈ e.entries)
    (hdecision : a.decision = .requestEscalated) :
    ∃ pending b, e = .escalated pending b ∧ a = escalationEntry pending := by
  cases e with
  | noted | denied | restarted => cases ha
  | escalated pending b => exact ⟨pending, b, rfl, List.mem_singleton.mp ha⟩
  | revoked r =>
    obtain ⟨t, -, rfl⟩ := List.mem_map.mp ha
    cases hdecision
  | _ =>
    cases List.mem_singleton.mp ha
    cases hdecision

theorem countP_escalates_eq_zero (hno : ∀ pending b, e = .escalated pending b → pending.id ≠ i) :
    e.entries.countP (escalates i) = 0 := by
  refine List.countP_eq_zero.mpr fun a ha hesc => ?_
  obtain ⟨hid, hdecision⟩ := escalates_eq_true.mp hesc
  obtain ⟨pending, b, rfl, rfl⟩ := escalation_of_mem_entries ha hdecision
  exact hno pending b rfl (Option.some.inj hid)

theorem EscalatedOnce.after (h : L.EscalatedOnce backup) (he : L.Enabled p e)
    (hstored : L.DecidesStored backup e) : (L.after e).EscalatedOnce backup := by
  have hcount : ∀ i, (L.after e).log.countP (escalates i) =
      L.log.countP (escalates i) + e.entries.countP (escalates i) := fun i => List.countP_append
  have hold : ∀ i, e.entries.countP (escalates i) = 0 → L.log.countP (escalates i) ≠ 0 →
      ∃ r b, (L.after e).requests i = some r ∧ backup = some b ∧ r.assignedApprover = some b := by
    intro i hzero hne
    obtain ⟨r, b, hr, hb, hassigned⟩ := h.assigned i hne
    obtain ⟨r', hr', hsame⟩ := he.assignment_stays hstored hr fun pending b' he' hid => by
      subst he' hid
      simp [Event.entries, escalationEntry, escalates] at hzero
    exact ⟨r', b, hr', hb, hsame.trans hassigned⟩
  have hnew : ∀ i, e.entries.countP (escalates i) ≠ 0 → e.entries.countP (escalates i) ≤ 1 ∧
      L.log.countP (escalates i) = 0 ∧
      ∃ r b, (L.after e).requests i = some r ∧ backup = some b ∧ r.assignedApprover = some b := by
    intro i hne
    obtain ⟨a, ha, hesc⟩ := List.countP_pos_iff.mp (Nat.pos_of_ne_zero hne)
    obtain ⟨hid, hdecision⟩ := escalates_eq_true.mp hesc
    obtain ⟨pending, b, rfl, rfl⟩ := escalation_of_mem_entries ha hdecision
    cases hid
    obtain ⟨hb, hunassigned⟩ := hstored
    let escalated : PendingRequest := { pending with assignedApprover := some b }
    refine ⟨List.countP_le_length, ?_, escalated, b, written_stored (r := escalated) rfl, hb, rfl⟩
    by_contra hne
    obtain ⟨r, b', hr, hb', hassigned⟩ := h.assigned _ hne
    cases hr.symm.trans he.1
    cases hb.symm.trans hb'
    exact hunassigned hassigned
  refine ⟨fun i => ?_, fun i hne => ?_⟩
  · rw [hcount i]
    by_cases hzero : e.entries.countP (escalates i) = 0
    · rw [hzero]
      exact h.once i
    · obtain ⟨hle, hnone, -⟩ := hnew i hzero
      omega
  · by_cases hzero : e.entries.countP (escalates i) = 0
    · rw [hcount i, hzero] at hne
      exact hold i hzero hne
    · exact (hnew i hzero).2.2

/-- The status of a stored request changes only in its decision. -/
theorem Enabled.status_stays {r : PendingRequest} (he : L.Enabled p e) (hr : L.requests i = some r)
    (hno : e.decided ≠ some i) :
    ∃ r', (L.after e).requests i = some r' ∧ r'.status = r.status := by
  cases hw : e.written.filter (·.id = i) with
  | none => exact ⟨changedRequest e r, by simp [after, hw, hr], by cases e <;> rfl⟩
  | some r' =>
    obtain ⟨hwritten, hid⟩ := Option.filter_eq_some_iff.mp hw
    have hid : r'.id = i := of_decide_eq_true hid
    subst hid
    refine ⟨r', by simp [after, hw], ?_⟩
    cases e with
    | submitted =>
      cases hwritten
      rw [he.1] at hr
      cases hr
    | approved =>
      cases hwritten
      exact absurd rfl hno
    | denied =>
      cases hwritten
      exact absurd rfl hno
    | escalated =>
      cases hwritten
      cases he.1.symm.trans hr
      rfl
    | claimed =>
      cases hwritten
      cases he.1.symm.trans hr
      rfl
    | _ => cases hwritten

end Ledger

/-! ## What is done at the desk -/

variable {env : Env} {desk : Desk} {w : World}

/-- The number of escalation entries of a request in the whole log. -/
def World.escalations (w : World) (i : String) : Nat :=
  w.auditLog.entries.countP fun e => escalates i e.toAuditEntryInput

theorem World.escalations_eq (w : World) (i : String) :
    w.escalations i = w.ledger.log.countP (escalates i) := by
  simp only [World.escalations, World.ledger, List.countP_filter, List.countP_map]
  refine List.countP_congr fun e _ => ?_
  simp only [Function.comp, Bool.and_eq_true]
  refine ⟨fun h => ⟨h, ?_⟩, fun h => h.1⟩
  simp [AuditEntryInput.noteworthy, (escalates_eq_true.mp h).2]

/-- The entry that a successful `record` call appends. -/
theorem World.entries_logged (w : World) {entry : AuditEntryInput}
    (hreason : entry.lacksReason = false) (now : Int) :
    (w.logged env entry now).auditLog.entries = w.auditLog.entries ++
      [w.auditLog.entryOf env.toPlatform (env.randomUUID w.supply) entry now] := by
  have hentries := @AuditLog.call_entries env.toPlatform env.audit w.auditLog
    ⟨.ok, env.randomUUID w.supply, entry, now⟩
  rw [hreason] at hentries
  exact hentries

/-- The timeout check never throws; it escalates a request that waits for too long, or does
nothing. -/
theorem World.Sound.checked (h : w.Sound env) (desk : Desk) (requestId : String) (checkedAt : Int) :
    result (checkThisRequestTimeout env desk requestId checkedAt) w = .ok () ∧
    (w.checked env desk requestId checkedAt = w ∨ ∃ pending backup,
      truthy desk.backupApprover = some backup ∧ pending.id = requestId ∧
      pending.assignedApprover ≠ some backup ∧
      desk.decisionWindowMs ≤ (checkedAt - pending.requestedAt : Int) ∧
      w.checked env desk requestId checkedAt =
        (w.putRequest { pending with assignedApprover := some backup }).logged env
          (escalationEntry pending) checkedAt ∧
      w.Steps env (.escalated pending backup) (w.checked env desk requestId checkedAt)) := by
  obtain ⟨hok, hw⟩ := wp_iff.mp (checkRequestTimeout_effect h requestId
    (.finite desk.decisionWindowMs) desk.backupApprover checkedAt)
  refine ⟨hok, hw.imp id ?_⟩
  rintro ⟨pending, backup, hbackup, hid, ⟨-, hunassigned, hwindow⟩, hw, hstep⟩
  refine ⟨pending, backup, hbackup, hid, hunassigned, ?_, hw, hstep⟩
  exact not_lt.mp (of_decide_eq_false hwindow)

/-- A decision goes through for an eligible approver of a request that is pending; every other
attempt throws and is quiet. -/
theorem Verdict.attempt_spec (h : w.Sound env) (verdict : Verdict) (requestId approver : String)
    (now : Int) :
    wp (verdict.attempt env requestId approver now) (fun r w' =>
      (w.Quiet env w' ∧ r.isOk = false) ∨ ∃ pending e, w.ledger.requests requestId = some pending ∧
        pending.status = .pending ∧ pending.eligible approver ∧ w.Steps env e w' ∧
        e.decided = some requestId ∧ (∀ backup, w.ledger.DecidesStored backup e) ∧
        r = .ok ()) w := by
  cases verdict with
  | approve policyId =>
    refine wp_bind (wp_mono (approveAtOnce_spec h { requestId, approver, policyId, now }) ?_)
    rintro r w' (⟨hq, hr⟩ | ⟨pending, token, secret, hid, hstored, hstatus, heligible, hstep, rfl⟩)
    · cases r with
      | error err => exact .inl ⟨hq, rfl⟩
      | ok => cases hr
    · obtain rfl : pending.id = requestId := hid
      exact wp_pure (.inr ⟨pending, _, hstored, hstatus, heligible, hstep, rfl, fun _ => hstored,
        rfl⟩)
  | deny reasonCode =>
    refine wp_mono (denyRequest_spec h requestId approver reasonCode now) ?_
    rintro r w' (⟨hq, hr⟩ | ⟨pending, rfl, heligible, hstep, rfl⟩)
    · exact .inl ⟨hq, hr⟩
    · obtain ⟨hstored, hstatus⟩ := hstep.enabled
      exact .inr ⟨pending, _, hstored, hstatus, heligible, hstep, rfl, fun _ => trivial, rfl⟩

/-- The `action` of the log entries about a decision. -/
def Verdict.action : Verdict → String
  | .approve _ => "approve_request"
  | .deny _ => "deny_request"

/-- The entry about an attempt by someone who is not the assigned approver. -/
def rejectionEntry (pending : PendingRequest) (approver action : String) : AuditEntryInput :=
  { requestId := some pending.id, subject := pending.subject, action,
    decision := .requestDecisionRejected, actor := some approver,
    reasonCode := some "not_assigned_approver" }

theorem wp_assertEligibleDecider_refused (h : w.Sound env) {pending : PendingRequest}
    {approver action : String} {now : Int} {Q : Except Err Unit → World → Prop}
    (hother : ¬ pending.eligible approver)
    (hQ : ∀ err, Q (.error err) (w.logged env (rejectionEntry pending approver action) now)) :
    wp (assertEligibleDecider env pending approver action now) Q w := by
  refine wp_ite (fun heligible => absurd heligible hother) fun _ => wp_bind ?_
  have hreason : (rejectionEntry pending approver action).lacksReason = false := rfl
  exact wp_auditRecord h hreason (wp_throw (hQ _))

/-- An attempt by someone else than the assigned approver is logged, and that is all. -/
theorem Verdict.attempt_refused (h : w.Sound env) (verdict : Verdict) {requestId approver : String}
    (now : Int) {pending : PendingRequest} (hstored : w.ledger.requests requestId = some pending)
    (hstatus : pending.status = .pending) (hother : ¬ pending.eligible approver) :
    wp (verdict.attempt env requestId approver now) (fun r w' => r.isOk = false ∧
      w' = w.logged env (rejectionEntry pending approver verdict.action) now) w := by
  cases verdict with
  | approve policyId =>
    refine wp_bind (wp_bind (wp_bind (wp_getPending hstored hstatus (wp_bind ?_))))
    exact wp_assertEligibleDecider_refused h hother fun err => ⟨rfl, rfl⟩
  | deny reasonCode =>
    refine wp_bind (wp_getPending hstored hstatus (wp_bind ?_))
    exact wp_assertEligibleDecider_refused h hother fun err => ⟨rfl, rfl⟩

/-- The state that an action acts on: a decision is made after its timeout check. -/
def World.before (env : Env) (desk : Desk) (w : World) : DeskAction → World
  | .decide requestId _ _ checkedAt _ => w.checked env desk requestId checkedAt
  | _ => w

/-- A decision attempt is its timeout check and then the decision. -/
theorem decideRequest_eq (h : w.Sound env) (desk : Desk) (requestId approver : String) (verdict : Verdict)
    (checkedAt now : Int) :
    result (decideRequest env desk requestId approver verdict checkedAt now) w =
        result (verdict.attempt env requestId approver now) (w.checked env desk requestId checkedAt) ∧
      after (decideRequest env desk requestId approver verdict checkedAt now) w =
        after (verdict.attempt env requestId approver now)
          (w.checked env desk requestId checkedAt) := by
  have hrun : wp (decideRequest env desk requestId approver verdict checkedAt now) (fun r w' =>
      r = result (verdict.attempt env requestId approver now)
        (w.checked env desk requestId checkedAt) ∧
      w' = after (verdict.attempt env requestId approver now)
        (w.checked env desk requestId checkedAt)) w := by
    refine wp_bind (wp_iff.mpr ?_)
    rw [(h.checked desk requestId checkedAt).1]
    exact wp_iff.mpr ⟨rfl, rfl⟩
  exact wp_iff.mp hrun

/-- An attempt that returns. -/
def Decides (env : Env) (desk : Desk) (w : World) (a : DeskAction) (requestId approver : String) :
    Prop :=
  ∃ verdict checkedAt now, a = .decide requestId approver verdict checkedAt now ∧
    result (decideRequest env desk requestId approver verdict checkedAt now) w = .ok ()

/-- The timeout check is one event, which keeps the assignment of every request but its own. -/
theorem World.Sound.before_steps (h : w.Sound env) (desk : Desk) (a : DeskAction) :
    ∃ e, w.Steps env e (w.before env desk a) ∧
      w.ledger.DecidesStored (truthy desk.backupApprover) e ∧ e.decided = none := by
  have hsame : ∃ e, w.Steps env e w ∧ w.ledger.DecidesStored (truthy desk.backupApprover) e ∧
      e.decided = none := ⟨.noted, (World.Quiet.refl h).steps, trivial, rfl⟩
  cases a with
  | decide requestId approver verdict checkedAt now =>
    obtain ⟨-, hw | ⟨pending, backup, hbackup, -, hunassigned, -, -, hstep⟩⟩ :=
      h.checked desk requestId checkedAt
    · rw [World.before, hw]
      exact hsame
    · exact ⟨_, hstep, ⟨hbackup, hunassigned⟩, rfl⟩
  | _ => exact hsame

/-- **Each action is one event after its timeout check.** It decides a request only where it is a
decision attempt on it that returns, and it escalates none. -/
theorem DeskAction.exec_steps (h : w.Sound env) (desk : Desk) (a : DeskAction) :
    ∃ e, (w.before env desk a).Steps env e (a.exec env desk w) ∧
      (w.before env desk a).ledger.DecidesStored (truthy desk.backupApprover) e ∧
      (∀ pending b, e ≠ .escalated pending b) ∧
      ∀ i ∈ e.decided, ∃ approver, Decides env desk w a i approver := by
  have hnoted : ∀ {w' : World}, (w.before env desk a).Quiet env w' →
      ∃ e, (w.before env desk a).Steps env e w' ∧
        (w.before env desk a).ledger.DecidesStored (truthy desk.backupApprover) e ∧
        (∀ pending b, e ≠ .escalated pending b) ∧
        ∀ i ∈ e.decided, ∃ approver, Decides env desk w a i approver := by
    intro w' hq
    exact ⟨.noted, hq.steps, trivial, fun _ _ => Event.noConfusion, fun i hi => by cases hi⟩
  cases a with
  | submit request now =>
    have hspec := wp_iff.mp (requestToken_spec h request desk.primaryApprover now)
    rcases hspec with ⟨hq, -⟩ | ⟨id, hstep, -⟩
    · exact hnoted hq
    · exact ⟨_, hstep, trivial, fun _ _ => Event.noConfusion, fun i hi => by cases hi⟩
  | decide requestId approver verdict checkedAt now =>
    obtain ⟨hresult, hafter⟩ :=
      decideRequest_eq h desk requestId approver verdict checkedAt now
    obtain ⟨_, hchecked, -⟩ :=
      h.before_steps desk (.decide requestId approver verdict checkedAt now)
    have hspec := wp_iff.mp (verdict.attempt_spec hchecked.sound requestId approver now)
    have hexec : (DeskAction.decide requestId approver verdict checkedAt now).exec env desk w =
        after (verdict.attempt env requestId approver now)
          (w.checked env desk requestId checkedAt) := hafter
    rw [hexec]
    rcases hspec with ⟨hq, -⟩ | ⟨pending, e, -, -, -, hstep, hdecided, hstored, hok⟩
    · exact hnoted hq
    · refine ⟨e, hstep, hstored _, ?_, ?_⟩
      · rintro pending b rfl
        cases hdecided
      · intro i hi
        cases hdecided.symm.trans hi
        exact ⟨approver, verdict, checkedAt, now, rfl, hresult.trans hok⟩
  | claim requestId requestingSubject now =>
    have hspec := wp_iff.mp (claimTokenSecret_spec h requestId requestingSubject now)
    rcases hspec with ⟨hq, -⟩ | ⟨_, _, _, -, -, hstep, -⟩
    · exact hnoted hq
    · exact ⟨_, hstep, trivial, fun _ _ => Event.noConfusion, fun i hi => by cases hi⟩
  | clock t =>
    refine hnoted ⟨?_, rfl, le_rfl, fun hf => hf.of_breaker rfl⟩
    exact ⟨h.faults, h.kept, h.tokens, h.requests, h.tokenDrawn, h.requestDrawn⟩
  | restart =>
    exact ⟨_, World.restart_boot_steps h, trivial, fun _ _ => Event.noConfusion,
      fun i hi => by cases hi⟩

/-! ## Along a run -/

/-- Every reachable state is sound, and has each request escalated at most once. -/
theorem desk_sound (env : Env) (desk : Desk) (acts : List DeskAction) :
    ((deskMachine env desk).run acts).Sound env ∧
      ((deskMachine env desk).run acts).ledger.EscalatedOnce (truthy desk.backupApprover) := by
  induction acts using List.reverseRecOn with
  | nil =>
    have hq := World.boot_quiet (@World.sound_initial env)
    refine ⟨hq.sound, ?_⟩
    rw [Machine.run_nil, deskMachine, hq.ledger_eq]
    exact ⟨fun i => Nat.zero_le _, fun i hne => absurd rfl hne⟩
  | append_singleton acts a ih =>
    obtain ⟨hsound, honce⟩ := ih
    obtain ⟨e, hbefore, hstored, -⟩ := hsound.before_steps desk a
    obtain ⟨e', hexec, hstored', -⟩ := DeskAction.exec_steps hsound desk a
    have honce := honce.after hbefore.enabled hstored
    rw [← hbefore.ledger_eq] at honce
    have honce' := honce.after hexec.enabled hstored'
    rw [← hexec.ledger_eq] at honce'
    rw [Machine.run_snoc]
    exact ⟨hexec.sound, honce'⟩

/-- An action writes an escalation entry only in its timeout check. -/
theorem World.Sound.escalations_exec (h : w.Sound env) (a : DeskAction) (i : String) :
    (a.exec env desk w).escalations i = (w.before env desk a).escalations i := by
  obtain ⟨e, hexec, -, hescalates, -⟩ := DeskAction.exec_steps h desk a
  have hzero : e.entries.countP (escalates i) = 0 :=
    Ledger.countP_escalates_eq_zero fun pending b he => absurd he (hescalates pending b)
  rw [World.escalations_eq, World.escalations_eq, hexec.ledger_eq, Ledger.after,
    List.countP_append, hzero, Nat.add_zero]

/-- An escalation entry is written while the request is pending, when the window has passed. -/
theorem World.Sound.of_escalations_ne (h : w.Sound env) {a : DeskAction} {i : String}
    (hne : (a.exec env desk w).escalations i ≠ w.escalations i) :
    ∃ r approver verdict checkedAt now e, a = .decide i approver verdict checkedAt now ∧
      w.ledger.requests i = some r ∧ r.status = .pending ∧
      desk.decisionWindowMs ≤ (checkedAt - r.requestedAt : Int) ∧
      (w.checked env desk i checkedAt).auditLog.entries = w.auditLog.entries ++ [e] ∧
      escalates i e.toAuditEntryInput = true ∧ e.occurredAt = checkedAt := by
  rw [h.escalations_exec] at hne
  cases a with
  | decide requestId approver verdict checkedAt now =>
    rw [World.before] at hne
    obtain ⟨-, hw | ⟨pending, backup, -, rfl, -, hwindow, hw, hstep⟩⟩ :=
      h.checked desk requestId checkedAt
    · rw [hw] at hne
      exact absurd rfl hne
    · have hentries := @World.entries_logged env
        (w.putRequest { pending with assignedApprover := some backup }) (escalationEntry pending) rfl
        checkedAt
      obtain ⟨hstored, hstatus⟩ := hstep.enabled
      have hid : pending.id = i := by
        by_contra hid
        rw [World.escalations_eq, World.escalations_eq, hstep.ledger_eq, Ledger.after,
          List.countP_append, Ledger.countP_escalates_eq_zero] at hne
        · exact hne rfl
        · intro pending' b he
          cases he
          exact hid
      subst hid
      let entry := w.auditLog.entryOf env.toPlatform (env.randomUUID w.supply)
        (escalationEntry pending) checkedAt
      refine ⟨pending, approver, verdict, checkedAt, now, entry, rfl, hstored, hstatus, hwindow, ?_,
        ?_, ?_⟩
      · rw [hw]
        exact hentries
      · exact escalates_eq_true.mpr ⟨rfl, rfl⟩
      · rfl
  | _ => exact absurd rfl hne

/-- Who decides a request is the approver it is assigned to, and the backup once it was escalated. -/
theorem World.Sound.of_decides (h : w.Sound env)
    (honce : w.ledger.EscalatedOnce (truthy desk.backupApprover)) {a : DeskAction}
    {i approver : String} (hdecides : Decides env desk w a i approver) :
    ∃ r, (w.before env desk a).ledger.requests i = some r ∧ r.status = .pending ∧
      r.eligible approver ∧
      ((w.before env desk a).escalations i ≠ 0 → desk.backupApprover = some approver) := by
  obtain ⟨verdict, checkedAt, now, rfl, hok⟩ := hdecides
  obtain ⟨e, hbefore, hstored, -⟩ :=
    h.before_steps desk (.decide i approver verdict checkedAt now)
  obtain ⟨hresult, -⟩ := decideRequest_eq h desk i approver verdict checkedAt now
  have hspec := wp_iff.mp (verdict.attempt_spec hbefore.sound i approver now)
  have hok' : result (verdict.attempt env i approver now)
      (w.before env desk (.decide i approver verdict checkedAt now)) = .ok () :=
    hresult.symm.trans hok
  rcases hspec with ⟨-, hfailed⟩ | ⟨r, -, hr, hstatus, heligible, -⟩
  · rw [hok'] at hfailed
    cases hfailed
  · refine ⟨r, hr, hstatus, heligible, fun hne => ?_⟩
    have honce' := honce.after hbefore.enabled hstored
    rw [← hbefore.ledger_eq] at honce'
    rw [World.escalations_eq] at hne
    obtain ⟨r', b, hr', hbackup, hassigned⟩ := honce'.assigned i hne
    cases hr.symm.trans hr'
    rcases heligible with hnone | hsome
    · rw [hassigned] at hnone
      cases hnone
    · cases hassigned.symm.trans hsome
      exact (truthy_eq_some.mp hbackup).1

/-- Without a backup no request is ever assigned anew. -/
theorem World.Sound.assignment_stays (h : w.Sound env) (hbackup : truthy desk.backupApprover = none)
    (a : DeskAction) {i : String} {r : PendingRequest} (hr : w.ledger.requests i = some r) :
    ∃ r', (a.exec env desk w).ledger.requests i = some r' ∧
      r'.assignedApprover = r.assignedApprover := by
  obtain ⟨e, hbefore, hstored, -⟩ := h.before_steps desk a
  obtain ⟨e', hexec, hstored', hescalates, -⟩ := DeskAction.exec_steps h desk a
  obtain ⟨r₁, hr₁, hassigned₁⟩ := hbefore.enabled.assignment_stays hstored hr fun pending b he => by
    subst he
    cases hbackup.symm.trans hstored.1
  rw [← hbefore.ledger_eq] at hr₁
  obtain ⟨r₂, hr₂, hassigned₂⟩ := hexec.enabled.assignment_stays hstored' hr₁
    fun pending b he => absurd he (hescalates pending b)
  rw [← hexec.ledger_eq] at hr₂
  exact ⟨r₂, hr₂, hassigned₂.trans hassigned₁⟩

/-- A request is decided only by an attempt on it that returns. -/
theorem World.Sound.decides_of_status_ne (h : w.Sound env) {a : DeskAction} {i : String}
    {r r' : PendingRequest} (hr : w.ledger.requests i = some r)
    (hr' : (a.exec env desk w).ledger.requests i = some r') (hne : r'.status ≠ r.status) :
    ∃ approver, Decides env desk w a i approver := by
  obtain ⟨e, hbefore, -, hundecided⟩ := h.before_steps desk a
  obtain ⟨e', hexec, -, -, hdecides⟩ := DeskAction.exec_steps h desk a
  obtain ⟨r₁, hr₁, hstatus₁⟩ := hbefore.enabled.status_stays hr (by simp [hundecided])
  rw [← hbefore.ledger_eq] at hr₁
  by_cases hdecided : e'.decided = some i
  · exact hdecides i hdecided
  · obtain ⟨r₂, hr₂, hstatus₂⟩ := hexec.enabled.status_stays hr₁ hdecided
    rw [← hexec.ledger_eq] at hr₂
    cases hr'.symm.trans hr₂
    exact absurd (hstatus₂.trans hstatus₁) hne

/-- An attempt by someone else leaves every token and request alone, and is logged. -/
theorem World.Sound.attempt_refused (h : w.Sound env) {i approver : String} (verdict : Verdict)
    {checkedAt : Int} (now : Int) {r : PendingRequest}
    (hr : (w.checked env desk i checkedAt).ledger.requests i = some r)
    (hstatus : r.status = .pending) (hother : ¬ r.eligible approver) :
    let w₁ := w.checked env desk i checkedAt
    let w' := (DeskAction.decide i approver verdict checkedAt now).exec env desk w
    (result (decideRequest env desk i approver verdict checkedAt now) w).isOk = false ∧
      w'.tokenStore = w₁.tokenStore ∧ w'.requestStore = w₁.requestStore ∧
      ∃ e : AuditLogEntry, w'.auditLog.entries = w₁.auditLog.entries ++ [e] ∧
        e.toAuditEntryInput = rejectionEntry r approver verdict.action := by
  obtain ⟨_, hbefore, -⟩ :=
    h.before_steps desk (.decide i approver verdict checkedAt now)
  obtain ⟨hresult, hafter⟩ := decideRequest_eq h desk i approver verdict checkedAt now
  obtain ⟨hfailed, hw⟩ :=
    wp_iff.mp (Verdict.attempt_refused hbefore.sound verdict now hr hstatus hother)
  have hw' : (DeskAction.decide i approver verdict checkedAt now).exec env desk w =
      (w.checked env desk i checkedAt).logged env (rejectionEntry r approver verdict.action) now :=
    hafter.trans hw
  intro w₁ w'
  refine ⟨hresult ▸ hfailed, ?_, ?_, ?_⟩
  · exact (congrArg World.tokenStore hw').trans rfl
  · exact (congrArg World.requestStore hw').trans rfl
  · have hentries := @World.entries_logged env w₁ (rejectionEntry r approver verdict.action) rfl now
    exact ⟨_, (congrArg (fun w => w.auditLog.entries) hw').trans hentries, rfl⟩

/-- **Only the assigned approver decides, and escalation happens once.** In every reachable state,
and for every action there: a request has at most one escalation entry, which is written while it is
pending and its window has passed; a request is decided only by an attempt that returns, and then by
the approver that it is assigned to at that moment, who is the backup once it was escalated; without
a backup no assignment changes; and an attempt by anyone else is logged and changes nothing. -/
theorem only_assigned_approver_decides (env : Env) (desk : Desk) (acts : List DeskAction) :
    let w := (deskMachine env desk).run acts
    (∀ i, w.escalations i ≤ 1) ∧
    (∀ (a : DeskAction) i, (a.exec env desk w).escalations i ≠ w.escalations i →
      ∃ r approver verdict checkedAt now e, a = .decide i approver verdict checkedAt now ∧
        w.requestStore.live.get i = some r ∧ r.status = .pending ∧
        desk.decisionWindowMs ≤ (checkedAt - r.requestedAt : Int) ∧
        (w.checked env desk i checkedAt).auditLog.entries = w.auditLog.entries ++ [e] ∧
        escalates i e.toAuditEntryInput = true ∧ e.occurredAt = checkedAt) ∧
    (∀ (a : DeskAction) i r r', w.requestStore.live.get i = some r → r.status = .pending →
      (a.exec env desk w).requestStore.live.get i = some r' → r'.status ≠ .pending →
      ∃ approver, Decides env desk w a i approver) ∧
    (∀ a i approver, Decides env desk w a i approver →
      ∃ r, (w.before env desk a).requestStore.live.get i = some r ∧ r.status = .pending ∧
        (∀ assigned, r.assignedApprover = some assigned → approver = assigned) ∧
        ((w.before env desk a).escalations i ≠ 0 → desk.backupApprover = some approver)) ∧
    (∀ (a : DeskAction) i, w.escalations i ≤ (w.before env desk a).escalations i) ∧
    (truthy desk.backupApprover = none → ∀ (a : DeskAction) i r,
      w.requestStore.live.get i = some r →
      ∃ r', (a.exec env desk w).requestStore.live.get i = some r' ∧
        r'.assignedApprover = r.assignedApprover) ∧
    (∀ i approver verdict checkedAt now r assigned,
      let w₁ := w.checked env desk i checkedAt
      let w' := (DeskAction.decide i approver verdict checkedAt now).exec env desk w
      w₁.requestStore.live.get i = some r → r.status = .pending →
      r.assignedApprover = some assigned → approver ≠ assigned →
      (result (decideRequest env desk i approver verdict checkedAt now) w).isOk = false ∧
      w'.tokenStore = w₁.tokenStore ∧ w'.requestStore = w₁.requestStore ∧
      ∃ e : AuditLogEntry, w'.auditLog.entries = w₁.auditLog.entries ++ [e] ∧
        e.decision = .requestDecisionRejected ∧ e.requestId = some i ∧
        e.actor = some approver) := by
  intro w
  obtain ⟨hsound, honce⟩ := desk_sound env desk acts
  refine ⟨fun i => ?_, fun a i hne => hsound.of_escalations_ne hne, ?_, ?_, fun a i => ?_, ?_, ?_⟩
  · rw [World.escalations_eq]
    exact honce.once i
  · intro a i r r' hr hstatus hr' hne
    exact hsound.decides_of_status_ne hr hr' (hstatus ▸ hne)
  · intro a i approver hdecides
    obtain ⟨r, hr, hstatus, heligible, hbackup⟩ := hsound.of_decides honce hdecides
    refine ⟨r, hr, hstatus, fun assigned hassigned => ?_, hbackup⟩
    rcases heligible with hnone | hsome
    · rw [hassigned] at hnone
      cases hnone
    · exact Option.some.inj (hsome.symm.trans hassigned)
  · obtain ⟨e, hbefore, -⟩ := hsound.before_steps desk a
    rw [World.escalations_eq, World.escalations_eq, hbefore.ledger_eq, Ledger.after,
      List.countP_append]
    exact Nat.le_add_right _ _
  · intro hbackup a i r hr
    exact hsound.assignment_stays hbackup a hr
  · intro i approver verdict checkedAt now r assigned w₁ w' hr hstatus hassigned hne
    have hother : ¬ r.eligible approver := by
      rintro (hnone | hsome)
      · rw [hassigned] at hnone
        cases hnone
      · exact hne (Option.some.inj (hsome.symm.trans hassigned))
    obtain ⟨hfailed, htokens, hrequests, e, hentries, he⟩ :=
      hsound.attempt_refused verdict now hr hstatus hother
    refine ⟨hfailed, htokens, hrequests, e, hentries, ?_, ?_, ?_⟩
    · rw [he, rejectionEntry]
    · obtain ⟨_, hbefore, -⟩ :=
        hsound.before_steps desk (.decide i approver verdict checkedAt now)
      have hid : r.id = i := hbefore.sound.requests.keyed _ _ hr
      rw [he, rejectionEntry, hid]
    · rw [he, rejectionEntry]

end Ambit
