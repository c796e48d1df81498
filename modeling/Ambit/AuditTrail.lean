import Ambit.Faultless

/-! What the operations write to the log apart from the circuit breaker, which may report itself on
any access: the entries in memory, in order. -/

namespace Ambit

variable {env : Env} {w : World}

/-- The entry reports the circuit breaker. -/
def AuditEntryInput.reportsCircuit (entry : AuditEntryInput) : Bool :=
  entry.decision = .circuitOpened ∨ entry.decision = .circuitClosed

namespace World

/-- The entries in memory, without those of the circuit breaker. -/
def trail (w : World) : List AuditEntryInput :=
  (w.auditLog.entries.map (·.toAuditEntryInput)).filter fun e => !e.reportsCircuit

theorem trail_logged_filter {entry : AuditEntryInput} (hreason : entry.lacksReason = false)
    (now : Int) : (w.logged env entry now).trail =
      w.trail ++ [entry].filter fun e => !e.reportsCircuit := by
  obtain ⟨full, rfl, hentries, -⟩ := AuditLog.record_spec env.toPlatform env.audit w.auditLog .ok
    (env.randomUUID w.supply) hreason now
  have hentries : (w.logged env full.toAuditEntryInput now).auditLog.entries =
      w.auditLog.entries ++ [full] := hentries
  rw [trail, hentries, List.map_append, List.filter_append]
  rfl

theorem trail_logged {entry : AuditEntryInput} (hreason : entry.lacksReason = false)
    (hcircuit : entry.reportsCircuit = false) (now : Int) :
    (w.logged env entry now).trail = w.trail ++ [entry] := by
  rw [trail_logged_filter hreason, List.filter_cons_of_pos (by rw [hcircuit]; rfl), List.filter_nil]

@[simp] theorem trail_withBreaker (b : CircuitBreaker) : (w.withBreaker b).trail = w.trail := rfl

@[simp] theorem trail_drawn : w.drawn.trail = w.trail := rfl

@[simp] theorem trail_putToken (t : Token) : (w.putToken t).trail = w.trail := rfl

theorem trail_reported (change : Option CircuitStateChange) :
    (w.reported env change).trail = w.trail := by
  have hcircuit : ∀ decision reason, (decision = .circuitOpened ∨ decision = .circuitClosed) →
      (w.logged env (circuitEntry decision reason) w.clock).trail = w.trail := by
    intro decision reason hdecision
    have hreports : (circuitEntry decision reason).reportsCircuit = true := decide_eq_true hdecision
    rw [trail_logged_filter (circuitEntry_lacksReason ..),
      List.filter_cons_of_neg (by rw [hreports]; exact Bool.false_ne_true), List.filter_nil,
      List.append_nil]
  unfold reported
  split
  · exact hcircuit _ _ (.inl rfl)
  · exact hcircuit _ _ (.inr rfl)
  · rfl

@[simp] theorem trail_accessed : (w.accessed env).trail = w.trail :=
  trail_reported (w := w.withBreaker w.probe.onSuccess.1) _

@[simp] theorem trail_rejected : (w.rejected env).trail = w.trail := by
  unfold rejected
  split
  · rfl
  · let result := w.probe.onFailure env.circuitBreaker w.clock
    exact trail_reported (w := w.withBreaker result.1) result.2

end World

end Ambit
