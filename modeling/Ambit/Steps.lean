import Ambit.Rules
import Ambit.LedgerLinks

/-! Pieces of the program as events of the ledger. A piece that stores no token and no request and
writes no noteworthy entry is quiet; quiet pieces compose, and may stand before and after an
event. -/

namespace Ambit

namespace World

/-- The state changed, but not the ledger. -/
structure Quiet (env : Env) (w w' : World) : Prop where
  sound : w'.Sound env
  ledger_eq : w'.ledger = w.ledger
  supply_le : w.supply ≤ w'.supply
  flows : w.Flowing → w'.Flowing

/-- The state changed as the ledger does at an event. -/
structure Steps (env : Env) (w : World) (e : Event) (w' : World) : Prop where
  sound : w'.Sound env
  enabled : w.ledger.Enabled env.toPlatform e
  ledger_eq : w'.ledger = w.ledger.after e
  supply_le : w.supply ≤ w'.supply
  flows : w.Flowing → w'.Flowing

variable {env : Env} {w w' w'' : World} {e : Event}

theorem Quiet.refl (h : w.Sound env) : w.Quiet env w := ⟨h, rfl, le_rfl, fun hf => hf⟩

theorem Quiet.trans (h : w.Quiet env w') (h' : w'.Quiet env w'') : w.Quiet env w'' :=
  ⟨h'.sound, h'.ledger_eq.trans h.ledger_eq, h.supply_le.trans h'.supply_le,
    h'.flows ∘ h.flows⟩

theorem Quiet.steps (h : w.Quiet env w') : w.Steps env .noted w' := by
  refine ⟨h.sound, trivial, ?_, h.supply_le, h.flows⟩
  rw [h.ledger_eq, Ledger.after_eq (fun _ _ => rfl) fun _ => rfl]
  simp [Event.issued, Event.written, Event.entries]

theorem Steps.quiet (h : w.Steps env e w') (h' : w'.Quiet env w'') : w.Steps env e w'' :=
  ⟨h'.sound, h.enabled, h'.ledger_eq.trans h.ledger_eq, h.supply_le.trans h'.supply_le,
    h'.flows ∘ h.flows⟩

theorem Quiet.then (h : w.Quiet env w') (h' : w'.Steps env e w'') : w.Steps env e w'' := by
  refine ⟨h'.sound, ?_, ?_, h.supply_le.trans h'.supply_le, h'.flows ∘ h.flows⟩
  · rw [← h.ledger_eq]
    exact h'.enabled
  · rw [← h.ledger_eq]
    exact h'.ledger_eq

/-! ## Quiet operations -/

theorem supply_le_reported (w : World) (change : Option CircuitStateChange) :
    w.supply ≤ (w.reported env change).supply := by
  unfold reported
  split
  · exact Nat.le_succ _
  · exact Nat.le_succ _
  · exact le_rfl

theorem Quiet.drawn (h : w.Quiet env w') : w.Quiet env w'.drawn :=
  ⟨h.sound.drawn, h.ledger_eq, h.supply_le.trans (Nat.le_succ _),
    fun hf => (h.flows hf).of_breaker rfl⟩

theorem Quiet.logged (h : w.Quiet env w') {entry : AuditEntryInput}
    (hreason : entry.lacksReason = false) (hnote : entry.noteworthy = false) (now : Int) :
    w.Quiet env (w'.logged env entry now) :=
  ⟨h.sound.logged hreason now, (ledger_logged h.sound hreason hnote now).trans h.ledger_eq,
    h.supply_le.trans (Nat.le_succ _), fun hf => (h.flows hf).of_breaker rfl⟩

theorem Quiet.accessed (h : w.Quiet env w') : w.Quiet env (w'.accessed env) where
  sound := h.sound.accessed
  ledger_eq := (ledger_accessed h.sound).trans h.ledger_eq
  supply_le := h.supply_le.trans (supply_le_reported (w'.withBreaker w'.probe.onSuccess.1) _)
  flows hf := by
    rw [(h.flows hf).accessed_eq]
    exact h.flows hf

theorem Quiet.rejected (h : w.Quiet env w') (hrejects : w'.Rejects env) :
    w.Quiet env (w'.rejected env) := by
  refine ⟨h.sound.rejected, (ledger_rejected h.sound).trans h.ledger_eq, h.supply_le.trans ?_,
    fun hf => absurd hrejects (h.flows hf).not_rejects⟩
  unfold World.rejected
  split
  · exact le_rfl
  · let result := w'.probe.onFailure env.circuitBreaker w'.clock
    exact supply_le_reported (w'.withBreaker result.1) result.2

theorem Quiet.putPolicy (h : w.Quiet env w') (policy : Policy) :
    w.Quiet env (w'.putPolicy policy) :=
  ⟨h.sound.putPolicy policy, h.ledger_eq, h.supply_le, fun hf => (h.flows hf).of_breaker rfl⟩

theorem Quiet.putIdentity (h : w.Quiet env w') (identity : AgentIdentity) :
    w.Quiet env (w'.putIdentity identity) :=
  ⟨h.sound.putIdentity identity, h.ledger_eq, h.supply_le, fun hf => (h.flows hf).of_breaker rfl⟩

theorem Quiet.putRule (h : w.Quiet env w') (rule : RedactionRule) :
    w.Quiet env (w'.putRule rule) :=
  ⟨h.sound.putRule rule, h.ledger_eq, h.supply_le, fun hf => (h.flows hf).of_breaker rfl⟩

/-- A log entry that is not noteworthy is quiet, whether it is accepted or not. -/
theorem Quiet.auditRecord (h : w.Quiet env w') {entry : AuditEntryInput}
    (hnote : entry.noteworthy = false) (now : Int) :
    Effect.wp (auditRecord env entry now) (fun _ w'' => w.Quiet env w'') w' := by
  cases hreason : entry.lacksReason with
  | false => exact wp_auditRecord h.sound hreason (h.logged hreason hnote now)
  | true => exact wp_auditRecord_refused h.sound hreason fun _ => h.drawn

/-! ## Operations that show in the ledger -/

theorem ledger_putToken (w : World) (t : Token) : (w.putToken t).ledger = w.ledger.setToken t := by
  simp only [ledger, putToken, Ledger.setToken, Journal.save_live, funext fun i =>
    OrderedMap.get_set w.tokenStore.live t.id i t]

theorem ledger_putRequest (w : World) (r : PendingRequest) :
    (w.putRequest r).ledger = w.ledger.setRequest r := by
  simp only [ledger, putRequest, Ledger.setRequest, Journal.save_live, funext fun i =>
    OrderedMap.get_set w.requestStore.live r.id i r]

theorem ledger_logged_noteworthy (h : w.Sound env) {entry : AuditEntryInput}
    (hreason : entry.lacksReason = false) (hnote : entry.noteworthy = true) (now : Int) :
    (w.logged env entry now).ledger = w.ledger.note entry := by
  have hlog := ledger_log_logged h hreason now
  simp only [List.filter_cons, hnote, List.filter_nil, if_true] at hlog
  show (⟨w.ledger.tokens, w.ledger.requests, (w.logged env entry now).ledger.log⟩ : Ledger) = _
  rw [hlog]
  rfl

end World

/-! ## Quiet programs -/

open Effect

/-- The program is quiet from every sound state, and a value that it returns satisfies `P`. -/
def Quietly (env : Env) {α : Type} (x : Op α) (P : α → Prop) : Prop :=
  ∀ w : World, w.Sound env → wp x (fun r w' => w.Quiet env w' ∧ OnOk P r) w

namespace Quietly

variable {env : Env} {α β : Type} {x y : Op α} {f : α → Op β} {P : α → Prop} {Q : β → Prop}

theorem pure {a : α} (ha : P a) : Quietly env (pure a) P := fun _ h => wp_pure ⟨.refl h, ha⟩

theorem throw {e : Err} : Quietly env (throw e : Op α) P := fun _ h => wp_throw ⟨.refl h, trivial⟩

theorem bind (hx : Quietly env x P) (hf : ∀ a, P a → Quietly env (f a) Q) :
    Quietly env (x >>= f) Q := by
  intro w h
  refine wp_bind (wp_mono (hx w h) fun r w₁ ⟨hq, hr⟩ => ?_)
  cases r with
  | error => exact ⟨hq, trivial⟩
  | ok a => exact wp_mono (hf a hr w₁ hq.sound) fun r w₂ ⟨hq', hr'⟩ => ⟨hq.trans hq', hr'⟩

theorem ite {c : Prop} [Decidable c] (hx : c → Quietly env x P) (hy : ¬ c → Quietly env y P) :
    Quietly env (if c then x else y) P := by
  split
  · exact hx ‹_›
  · exact hy ‹_›

theorem throwIf {c : Prop} [Decidable c] {e : Err} {P : Unit → Prop} (h : ¬ c → P ()) :
    Quietly env (throwIf c e) P := ite (fun _ => .throw) fun hc => .pure (h hc)

/-- The outcome of a quiet program, handed back as a value. -/
theorem attempt (hx : Quietly env x P) : Quietly env (attempt x) (OnOk P) :=
  fun w h => wp_attempt (hx w h)

theorem get : Quietly env (get : Op World) fun _ => True := fun _ h => wp_get ⟨.refl h, trivial⟩

theorem now : Quietly env now fun _ => True := fun _ h => wp_now ⟨.refl h, trivial⟩

theorem draw {value : ℕ → α} : Quietly env (draw value) fun _ => True :=
  fun _ h => wp_draw ⟨(World.Quiet.refl h).drawn, trivial⟩

theorem auditRecord {entry : AuditEntryInput} (hnote : entry.noteworthy = false) (now : Int) :
    Quietly env (auditRecord env entry now) fun _ => True := by
  intro w h
  refine wp_mono ((World.Quiet.refl h).auditRecord hnote now) fun r w' hq => ⟨hq, ?_⟩
  cases r <;> trivial

theorem tokenStore_get (id : String) : Quietly env (TokenStore.get env id) fun _ => True := by
  intro w h
  have hq := World.Quiet.refl h
  exact TokenStore.wp_get h (fun hrej _ => ⟨hq.rejected hrej, trivial⟩) fun _ => ⟨hq.accessed, trivial⟩

theorem policyStore_get (id : String) : Quietly env (PolicyStore.get env id) fun _ => True := by
  intro w h
  have hq := World.Quiet.refl h
  exact PolicyStore.wp_get h (fun hrej _ => ⟨hq.rejected hrej, trivial⟩) fun _ => ⟨hq.accessed, trivial⟩

theorem policyStore_save (policy : Policy) :
    Quietly env (PolicyStore.save env policy) fun _ => True := by
  intro w h
  have hq := World.Quiet.refl h
  exact PolicyStore.wp_save h (fun hrej _ => ⟨hq.rejected hrej, trivial⟩)
    fun _ => ⟨hq.accessed.putPolicy policy, trivial⟩

theorem agentIdentityStore_save (identity : AgentIdentity) :
    Quietly env (AgentIdentityStore.save identity) fun _ => True :=
  fun _ h => AgentIdentityStore.wp_save h ⟨(World.Quiet.refl h).putIdentity identity, trivial⟩

theorem redactionRuleStore_save (rule : RedactionRule) :
    Quietly env (RedactionRuleStore.save rule) fun _ => True :=
  fun _ h => RedactionRuleStore.wp_save h ⟨(World.Quiet.refl h).putRule rule, trivial⟩

end Quietly

end Ambit
