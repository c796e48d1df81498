import Ambit.AuditHistory
import Ambit.Ledger

/-! What the operations on a process do when no file operation fails: each is a function of the
state, and keeps the state sound. The circuit breaker admits or rejects an access to a guarded
store; either way it only moves itself and adds its own log entries. -/

namespace Ambit

open Effect

/-- The ledger that a process holds. -/
def World.ledger (w : World) : Ledger where
  tokens := w.tokenStore.live.get
  requests := w.requestStore.live.get
  log := (w.auditLog.entries.map (·.toAuditEntryInput)).filter AuditEntryInput.noteworthy

theorem World.ledger_log_filter {w : World} {p : AuditEntryInput → Bool}
    (hp : ∀ e, p e = true → e.noteworthy = true) :
    w.ledger.log.filter p = (w.auditLog.entries.map (·.toAuditEntryInput)).filter p := by
  show List.filter _ (List.filter _ _) = _
  rw [List.filter_filter]
  refine List.filter_congr fun e _ => ?_
  cases hpe : p e with
  | false => rfl
  | true => exact hp e hpe

/-- No file operation fails, the files agree with the memory, and ids are drawn ones. -/
structure World.Sound (env : Env) (w : World) : Prop where
  faults : w.faults = []
  kept : w.auditLog.Kept env.audit
  tokens : w.tokenStore.Sound Token.id Token.image
  requests : w.requestStore.Sound PendingRequest.id PendingRequest.image
  tokenDrawn : ∀ i t, w.tokenStore.live.get i = some t → ∃ n < w.supply, i = env.randomUUID n
  requestDrawn : ∀ i r, w.requestStore.live.get i = some r → ∃ n < w.supply, i = env.randomUUID n

namespace World

variable (env : Env) (w : World)

/-- The state after a log entry was written. -/
def logged (entry : AuditEntryInput) (now : Int) : World :=
  { w with
    auditLog :=
      (w.auditLog.record env.toPlatform env.audit .ok (env.randomUUID w.supply) entry now).2
    supply := w.supply + 1 }

/-- The state after a change of the breaker was reported. -/
def reported : Option CircuitStateChange → World
  | some ⟨_, .opened, reason⟩ => w.logged env (circuitEntry .circuitOpened reason) w.clock
  | some ⟨_, .closed, reason⟩ => w.logged env (circuitEntry .circuitClosed reason) w.clock
  | _ => w

def withBreaker (b : CircuitBreaker) : World := { w with storeCircuitBreaker := b }

/-- The breaker of a call that is let through: half-open if it was open. -/
def probe : CircuitBreaker :=
  if w.storeCircuitBreaker.state = .opened then { w.storeCircuitBreaker with state := .halfOpen }
  else w.storeCircuitBreaker

/-- The breaker is open, and its cooldown has not elapsed. -/
def CoolingDown : Prop :=
  w.storeCircuitBreaker.state = .opened ∧
    w.clock - w.storeCircuitBreaker.openedAt < env.circuitBreaker.cooldownMs

instance : Decidable (w.CoolingDown env) := inferInstanceAs (Decidable (_ ∧ _))

/-- The breaker rejects the next access to a guarded store. -/
def Rejects : Prop := w.CoolingDown env ∨ w.storeCircuitBreaker.simulatingOutage = true

instance : Decidable (w.Rejects env) := inferInstanceAs (Decidable (_ ∨ _))

/-- The state after an access that the breaker admitted. -/
def accessed : World :=
  (w.withBreaker w.probe.onSuccess.1).reported env w.probe.onSuccess.2

/-- The state after an access that the breaker rejected. -/
def rejected : World :=
  if w.CoolingDown env then w
  else
    let (b, change) := w.probe.onFailure env.circuitBreaker w.clock
    (w.withBreaker b).reported env change

def putToken (t : Token) : World :=
  { w with tokenStore := w.tokenStore.save Token.id Token.image true t }

def putRequest (r : PendingRequest) : World :=
  { w with requestStore := w.requestStore.save PendingRequest.id PendingRequest.image true r }

def putPolicy (policy : Policy) : World :=
  { w with policyStore := w.policyStore.save Policy.id Policy.image true policy }

def putIdentity (identity : AgentIdentity) : World :=
  { w with
    agentIdentityStore := w.agentIdentityStore.save AgentIdentity.id (fun i => i) true identity }

def putRule (rule : RedactionRule) : World :=
  { w with
    redactionRuleStore := w.redactionRuleStore.save RedactionRule.id (fun r => r) true rule }

def drawn : World := { w with supply := w.supply + 1 }

variable {env : Env} {w : World}

/-! ## Soundness is kept -/

theorem Sound.withBreaker (h : w.Sound env) (b : CircuitBreaker) :
    (w.withBreaker b).Sound env :=
  ⟨h.faults, h.kept, h.tokens, h.requests, h.tokenDrawn, h.requestDrawn⟩

theorem Sound.drawn (h : w.Sound env) : w.drawn.Sound env := by
  refine ⟨h.faults, h.kept, h.tokens, h.requests, fun i t ht => ?_, fun i r hr => ?_⟩
  · obtain ⟨n, hn, hid⟩ := h.tokenDrawn i t ht
    exact ⟨n, Nat.lt_succ_of_lt hn, hid⟩
  · obtain ⟨n, hn, hid⟩ := h.requestDrawn i r hr
    exact ⟨n, Nat.lt_succ_of_lt hn, hid⟩

/-- What one successful `record` call does to the log. -/
theorem Sound.record (h : w.Sound env) {entry : AuditEntryInput} (hreason : entry.lacksReason = false)
    (now : Int) : ∃ full : AuditLogEntry, full.toAuditEntryInput = entry ∧
      w.auditLog.record env.toPlatform env.audit .ok (env.randomUUID w.supply) entry now =
        (.ok full, (w.logged env entry now).auditLog) ∧
      (w.logged env entry now).auditLog.entries = w.auditLog.entries ++ [full] ∧
      (w.logged env entry now).auditLog.Kept env.audit := by
  obtain ⟨segments, hkept⟩ := h.kept
  obtain ⟨log, segments', hrecord, hentries, hkept', -⟩ :=
    hkept.record (p := env.toPlatform) hreason (env.randomUUID w.supply) now
  have hlog : (w.logged env entry now).auditLog = log := by
    show (w.auditLog.record _ _ _ _ _ _).2 = log
    rw [hrecord]
  refine ⟨w.auditLog.entryOf env.toPlatform (env.randomUUID w.supply) entry now, rfl, ?_, ?_, ?_⟩
  · rw [hlog]
    exact hrecord
  · rw [hlog]
    exact hentries
  · rw [hlog]
    exact ⟨segments', hkept'⟩

theorem Sound.logged (h : w.Sound env) {entry : AuditEntryInput}
    (hreason : entry.lacksReason = false) (now : Int) : (w.logged env entry now).Sound env := by
  obtain ⟨-, -, -, -, hkept⟩ := h.record hreason now
  exact ⟨h.faults, hkept, h.tokens, h.requests, h.drawn.tokenDrawn, h.drawn.requestDrawn⟩

theorem Sound.putToken (h : w.Sound env) {t : Token} (hdrawn : ∃ n < w.supply, t.id = env.randomUUID n) :
    (w.putToken t).Sound env := by
  refine ⟨h.faults, h.kept, h.tokens.save t rfl, h.requests, fun i t' ht' => ?_, h.requestDrawn⟩
  simp only [World.putToken, Journal.save_live, OrderedMap.get_set] at ht'
  split at ht'
  · rename_i hid
    exact hid ▸ hdrawn
  · exact h.tokenDrawn i t' ht'

theorem Sound.putRequest (h : w.Sound env) {r : PendingRequest}
    (hdrawn : ∃ n < w.supply, r.id = env.randomUUID n) : (w.putRequest r).Sound env := by
  refine ⟨h.faults, h.kept, h.tokens, h.requests.save r rfl, h.tokenDrawn, fun i r' hr' => ?_⟩
  simp only [World.putRequest, Journal.save_live, OrderedMap.get_set] at hr'
  split at hr'
  · rename_i hid
    exact hid ▸ hdrawn
  · exact h.requestDrawn i r' hr'

theorem Sound.putPolicy (h : w.Sound env) (policy : Policy) : (w.putPolicy policy).Sound env :=
  ⟨h.faults, h.kept, h.tokens, h.requests, h.tokenDrawn, h.requestDrawn⟩

theorem Sound.putIdentity (h : w.Sound env) (identity : AgentIdentity) :
    (w.putIdentity identity).Sound env :=
  ⟨h.faults, h.kept, h.tokens, h.requests, h.tokenDrawn, h.requestDrawn⟩

theorem Sound.putRule (h : w.Sound env) (rule : RedactionRule) : (w.putRule rule).Sound env :=
  ⟨h.faults, h.kept, h.tokens, h.requests, h.tokenDrawn, h.requestDrawn⟩

theorem circuitEntry_lacksReason (decision : Decision) (reason : CircuitTransitionReason) :
    (circuitEntry decision reason).lacksReason = false := by
  cases decision <;> cases reason <;> decide

theorem Sound.reported (h : w.Sound env) (change : Option CircuitStateChange) :
    (w.reported env change).Sound env := by
  unfold World.reported
  split
  · exact h.logged (circuitEntry_lacksReason ..) _
  · exact h.logged (circuitEntry_lacksReason ..) _
  · exact h

theorem Sound.accessed (h : w.Sound env) : (w.accessed env).Sound env :=
  (h.withBreaker _).reported _

theorem Sound.rejected (h : w.Sound env) : (w.rejected env).Sound env := by
  unfold World.rejected
  split
  · exact h
  · exact (h.withBreaker _).reported _

/-- A soundly drawn id is not the next one to be drawn. -/
theorem Sound.tokens_fresh (h : w.Sound env) :
    w.tokenStore.live.get (env.randomUUID w.supply) = none := by
  cases ht : w.tokenStore.live.get (env.randomUUID w.supply) with
  | none => rfl
  | some t =>
    obtain ⟨n, hn, hid⟩ := h.tokenDrawn _ t ht
    exact absurd (env.randomUUID_injective hid) (Nat.ne_of_gt hn)

theorem Sound.requests_fresh (h : w.Sound env) :
    w.requestStore.live.get (env.randomUUID w.supply) = none := by
  cases hr : w.requestStore.live.get (env.randomUUID w.supply) with
  | none => rfl
  | some r =>
    obtain ⟨n, hn, hid⟩ := h.requestDrawn _ r hr
    exact absurd (env.randomUUID_injective hid) (Nat.ne_of_gt hn)

/-! ## The ledger after an operation -/

theorem ledger_log_logged (h : w.Sound env) {entry : AuditEntryInput}
    (hreason : entry.lacksReason = false) (now : Int) :
    (w.logged env entry now).ledger.log =
      w.ledger.log ++ [entry].filter AuditEntryInput.noteworthy := by
  obtain ⟨full, hfull, -, hentries, -⟩ := h.record hreason now
  simp only [ledger, hentries, List.map_append, List.filter_append, List.map_cons, List.map_nil,
    hfull]

theorem ledger_logged (h : w.Sound env) {entry : AuditEntryInput}
    (hreason : entry.lacksReason = false) (hnote : entry.noteworthy = false) (now : Int) :
    (w.logged env entry now).ledger = w.ledger := by
  have hlog := ledger_log_logged h hreason now
  simp only [List.filter_cons, hnote, List.filter_nil, List.append_nil, Bool.false_eq_true,
    if_false] at hlog
  show (⟨w.ledger.tokens, w.ledger.requests, (w.logged env entry now).ledger.log⟩ : Ledger) = _
  rw [hlog]

theorem ledger_reported (h : w.Sound env) (change : Option CircuitStateChange) :
    (w.reported env change).ledger = w.ledger := by
  unfold reported
  split
  · exact ledger_logged h (circuitEntry_lacksReason ..) rfl _
  · exact ledger_logged h (circuitEntry_lacksReason ..) rfl _
  · rfl

theorem ledger_accessed (h : w.Sound env) : (w.accessed env).ledger = w.ledger :=
  ledger_reported (h.withBreaker _) _

theorem ledger_rejected (h : w.Sound env) : (w.rejected env).ledger = w.ledger := by
  unfold rejected
  split
  · rfl
  · exact ledger_reported (h.withBreaker _) _

/-! ## Access without the breaker in the way -/

/-- The breaker is closed and counts no failure: accesses pass it and leave no trace. -/
structure Flowing (w : World) : Prop where
  closed : w.storeCircuitBreaker.state = .closed
  noFailures : w.storeCircuitBreaker.consecutiveFailures = 0
  noOutage : w.storeCircuitBreaker.simulatingOutage = false

theorem Flowing.not_rejects (h : w.Flowing) : ¬ w.Rejects env := by
  rintro (⟨hopened, -⟩ | hout)
  · rw [h.closed] at hopened
    cases hopened
  · rw [h.noOutage] at hout
    cases hout

theorem Flowing.accessed_eq (h : w.Flowing) : w.accessed env = w := by
  obtain ⟨_, _, _, _, _, _, ⟨state, failures, openedAt, out⟩, _, _, _, _, _⟩ := w
  obtain ⟨hclosed, hfailures, hout⟩ := h
  simp only at hclosed hfailures hout
  subst hclosed hfailures hout
  rfl

theorem reported_breaker (w : World) (change : Option CircuitStateChange) :
    (w.reported env change).storeCircuitBreaker = w.storeCircuitBreaker := by
  unfold reported
  split <;> rfl

/-- An access that was admitted leaves the breaker closed. -/
theorem flowing_accessed (h : ¬ w.Rejects env) : (w.accessed env).Flowing := by
  obtain ⟨-, hout⟩ := not_or.mp h
  have hbreaker : (w.accessed env).storeCircuitBreaker = w.probe.onSuccess.1 :=
    reported_breaker (w.withBreaker w.probe.onSuccess.1) _
  have hout' : w.storeCircuitBreaker.simulatingOutage = false := by simpa using hout
  constructor <;> rw [hbreaker] <;> unfold CircuitBreaker.onSuccess probe <;>
    cases hstate : w.storeCircuitBreaker.state <;> simp [CircuitBreaker.transition, hstate, hout']

/-- A state with the breaker of a flowing one is flowing. -/
theorem Flowing.of_breaker {w' : World} (h : w.Flowing)
    (hbreaker : w'.storeCircuitBreaker = w.storeCircuitBreaker) : w'.Flowing := by
  obtain ⟨hclosed, hfailures, hout⟩ := h
  rw [← hbreaker] at hclosed hfailures hout
  exact ⟨hclosed, hfailures, hout⟩

end World

end Ambit
