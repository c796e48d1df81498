import Ambit.Operations

/-! One rule an operation, for states ahead of which no file operation fails, whatever is in the
stores: what has to hold afterwards, as a condition on the state before. -/

namespace Ambit

open Effect

variable {env : Env} {w : World} {α : Type}

/-- None of the file operations ahead fails. -/
def World.Faultless (w : World) : Prop := w.faults = []

namespace World

variable (env w)

@[simp] theorem drawn_tokenStore : w.drawn.tokenStore = w.tokenStore := rfl

@[simp] theorem logged_tokenStore (entry : AuditEntryInput) (now : Int) :
    (w.logged env entry now).tokenStore = w.tokenStore := rfl

@[simp] theorem reported_tokenStore (change : Option CircuitStateChange) :
    (w.reported env change).tokenStore = w.tokenStore := by
  unfold reported
  split <;> rfl

@[simp] theorem accessed_tokenStore : (w.accessed env).tokenStore = w.tokenStore :=
  reported_tokenStore env (w.withBreaker _) _

@[simp] theorem rejected_tokenStore : (w.rejected env).tokenStore = w.tokenStore := by
  unfold rejected
  split
  · rfl
  · exact reported_tokenStore env (w.withBreaker _) _

variable {env w}

theorem Faultless.reported (h : w.Faultless) (change : Option CircuitStateChange) :
    (w.reported env change).Faultless := by
  unfold World.reported
  split <;> exact h

theorem Faultless.accessed (h : w.Faultless) : (w.accessed env).Faultless :=
  Faultless.reported (w := w.withBreaker w.probe.onSuccess.1) h _

theorem Faultless.rejected (h : w.Faultless) : (w.rejected env).Faultless := by
  unfold World.rejected
  split
  · exact h
  · let result := w.probe.onFailure env.circuitBreaker w.clock
    exact Faultless.reported (w := w.withBreaker result.1) h result.2

end World

theorem wp_now {Q : Except Err Int → World → Prop} (h : Q (.ok w.clock) w) : wp now Q w :=
  wp_bind (wp_get (wp_pure h))

theorem wp_draw {value : ℕ → α} {Q : Except Err α → World → Prop}
    (h : Q (.ok (value w.supply)) w.drawn) : wp (draw value) Q w :=
  wp_bind (wp_get (wp_bind (wp_set (wp_pure h))))

namespace Faultless

theorem wp_auditRecord {entry : AuditEntryInput} {now : Int} {Q : Except Err Unit → World → Prop}
    (h : w.Faultless) (hreason : entry.lacksReason = false)
    (hQ : Q (.ok ()) (w.logged env entry now)) : wp (auditRecord env entry now) Q w := by
  obtain ⟨full, -, -, -, hok⟩ := AuditLog.record_spec env.toPlatform env.audit w.auditLog .ok
    (env.randomUUID w.supply) hreason now
  have hresult : (w.auditLog.record env.toPlatform env.audit .ok (env.randomUUID w.supply) entry
      now).1 = .ok full := hok rfl
  have hrun : auditRecord env entry now w = .ok () (w.logged env entry now) := by
    obtain ⟨_, _, _, _, _, _, _, _, _, _, _, faults⟩ := w
    obtain rfl : faults = [] := h
    simp only [auditRecord, nextFault, List.headD_nil, List.tail_nil, Bool.not_false]
    have hio : AuditIo.ok = ⟨true, true⟩ := rfl
    rw [← hio, hresult]
    rfl
  exact wp_of_ok hrun hQ

/-- An entry that must have a reason and has none is refused. -/
theorem wp_auditRecord_refused {entry : AuditEntryInput} {now : Int}
    {Q : Except Err Unit → World → Prop} (h : w.Faultless) (hreason : entry.lacksReason = true)
    (hQ : ∀ message, Q (.error (.missingReasonCode message)) w.drawn) :
    wp (auditRecord env entry now) Q w := by
  have hrun : auditRecord env entry now w =
      .error (.missingReasonCode (missingReasonMessage entry.decision)) w.drawn := by
    obtain ⟨_, _, _, _, _, _, _, _, _, _, _, faults⟩ := w
    obtain rfl : faults = [] := h
    simp only [auditRecord, nextFault, List.headD_nil, List.tail_nil,
      AuditLog.record_of_lacksReason hreason]
    rfl
  exact wp_of_error hrun (hQ _)

/-! ## The circuit breaker -/

theorem wp_onStateChange {change : CircuitStateChange} {Q : Except Err Unit → World → Prop}
    (h : w.Faultless) (hQ : Q (.ok ()) (w.reported env (some change))) :
    wp (onStateChange env change) Q w := by
  obtain ⟨source, target, reason⟩ := change
  refine wp_bind (wp_now ?_)
  cases target with
  | opened => exact wp_auditRecord h (World.circuitEntry_lacksReason ..) hQ
  | closed => exact wp_auditRecord h (World.circuitEntry_lacksReason ..) hQ
  | halfOpen => exact wp_pure hQ

theorem wp_breakerTransition {f : CircuitBreaker → CircuitBreaker × Option CircuitStateChange}
    {Q : Except Err Unit → World → Prop} (h : w.Faultless)
    (hQ : Q (.ok ()) ((w.withBreaker (f w.storeCircuitBreaker).1).reported env
      (f w.storeCircuitBreaker).2)) : wp (breakerTransition env f) Q w := by
  refine wp_bind (wp_get (wp_bind (wp_set ?_)))
  generalize f w.storeCircuitBreaker = result at hQ ⊢
  obtain ⟨b, change⟩ := result
  cases change with
  | some change => exact wp_onStateChange (w := w.withBreaker b) h hQ
  | none => exact wp_pure hQ

/-- An operation that the breaker rejects does not run. -/
theorem execute_rejected {fn : Op α} (h : w.Faultless) (hrejects : w.Rejects env) :
    ∃ message, isBlank message = false ∧
      execute env fn w = .error (.circuitOpen message) (w.rejected env) := by
  have hwp : wp (execute env fn) (fun r w' => w' = w.rejected env ∧
      ∃ message, isBlank message = false ∧ r = .error (.circuitOpen message)) w := by
    refine wp_bind (wp_get (wp_ite ?_ ?_))
    · intro (hcooling : w.CoolingDown env)
      refine wp_throw ⟨?_, circuitOpenMessage, by decide +kernel, rfl⟩
      rw [World.rejected, if_pos hcooling]
    · intro (hcooling : ¬ w.CoolingDown env)
      have hout : w.storeCircuitBreaker.simulatingOutage = true := hrejects.resolve_left hcooling
      refine wp_bind (wp_set (wp_bind (wp_attempt (wp_ite (fun _ => ?_) fun hnot => absurd hout hnot))))
      refine wp_throw (wp_bind (wp_breakerTransition (w := w.withBreaker _) h (wp_throw ⟨?_, ?_⟩)))
      · rw [World.rejected, if_neg hcooling]
        rfl
      · exact ⟨"simulated outage", by decide +kernel, rfl⟩
  cases hrun : execute env fn w with
  | ok => obtain ⟨-, _, -, ⟨⟩⟩ := wp_ok hwp hrun
  | error =>
    obtain ⟨rfl, message, hmessage, hr⟩ := wp_error hwp hrun
    cases hr
    exact ⟨message, hmessage, rfl⟩

/-- An operation run through the breaker either is rejected, and does not run, or has its own
effect on top of that of the access. -/
theorem wp_execute {fn : Op α} {value : α} {f : World → World} {Q : Except Err α → World → Prop}
    (h : w.Faultless)
    (hfn : ∀ b, fn (w.withBreaker b) = .ok value (f (w.withBreaker b)))
    (hfaultless : ∀ b, (f (w.withBreaker b)).Faultless)
    (hbreaker : ∀ b, (f (w.withBreaker b)).storeCircuitBreaker = b)
    (hput : ∀ b b' change, ((f (w.withBreaker b)).withBreaker b').reported env change =
      f ((w.withBreaker b').reported env change))
    (hrejected : w.Rejects env → ∀ message, Q (.error (.circuitOpen message)) (w.rejected env))
    (hadmitted : ¬ w.Rejects env → Q (.ok value) (f (w.accessed env))) :
    wp (execute env fn) Q w := by
  by_cases hrejects : w.Rejects env
  · obtain ⟨message, -, hrun⟩ := execute_rejected h hrejects
    exact wp_of_error hrun (hrejected hrejects message)
  · obtain ⟨hcooling, hout⟩ := not_or.mp hrejects
    refine wp_bind (wp_get (wp_ite (fun h => absurd h hcooling) fun _ => ?_))
    refine wp_bind (wp_set (wp_bind (wp_attempt (wp_ite (fun h => absurd h hout) fun _ => ?_))))
    refine wp_bind ?_
    show wp fn _ (w.withBreaker w.probe)
    refine wp_of_ok (hfn _) (wp_bind (wp_breakerTransition (hfaultless _) (wp_pure (wp_pure ?_))))
    rw [hbreaker, hput]
    exact hadmitted hrejects

/-! ## The stores -/

theorem tokenStore_get {id : String} {Q : Except Err (Option Token) → World → Prop}
    (h : w.Faultless)
    (hrejected : w.Rejects env → ∀ message, Q (.error (.circuitOpen message)) (w.rejected env))
    (hadmitted : ¬ w.Rejects env → Q (.ok (w.tokenStore.live.get id)) (w.accessed env)) :
    wp (TokenStore.get env id) Q w :=
  wp_execute (f := fun w => w) h (fun _ => rfl) (fun _ => h) (fun _ => rfl)
    (fun _ _ _ => rfl) hrejected hadmitted

theorem policyStore_get {id : String} {Q : Except Err (Option Policy) → World → Prop}
    (h : w.Faultless)
    (hrejected : w.Rejects env → ∀ message, Q (.error (.circuitOpen message)) (w.rejected env))
    (hadmitted : ¬ w.Rejects env → Q (.ok (w.policyStore.live.get id)) (w.accessed env)) :
    wp (PolicyStore.get env id) Q w :=
  wp_execute (f := fun w => w) h (fun _ => rfl) (fun _ => h) (fun _ => rfl)
    (fun _ _ _ => rfl) hrejected hadmitted

/-- A save to a store that is not guarded. -/
theorem saveRecord_run {key : α → String} {image : α → α} {store : World → Journal String α}
    {put : World → Journal String α → World} {record : α} (h : w.Faultless) :
    saveRecord key image store put record w =
      .ok () (put w ((store w).save key image true record)) := by
  have hfaults : { w with faults := [] } = w := by
    obtain ⟨_, _, _, _, _, _, _, _, _, _, _, faults⟩ := w
    obtain rfl : faults = [] := h
    rfl
  have hhead : w.faults = [] := h
  simp [saveRecord, hhead, nextFault, hfaults]

theorem tokenStore_save {t : Token} {Q : Except Err Unit → World → Prop} (h : w.Faultless)
    (hrejected : w.Rejects env → ∀ message, Q (.error (.circuitOpen message)) (w.rejected env))
    (hadmitted : ¬ w.Rejects env → Q (.ok ()) ((w.accessed env).putToken t)) :
    wp (TokenStore.save env t) Q w := by
  refine wp_execute (f := fun w => w.putToken t) h (fun b => saveRecord_run (w := w.withBreaker b) h)
    (fun b => h) (fun _ => rfl) (fun b b' change => ?_) hrejected hadmitted
  obtain _ | ⟨source, target, reason⟩ := change
  · rfl
  · cases target <;> rfl

theorem policyStore_save {policy : Policy} {Q : Except Err Unit → World → Prop}
    (h : w.Faultless)
    (hrejected : w.Rejects env → ∀ message, Q (.error (.circuitOpen message)) (w.rejected env))
    (hadmitted : ¬ w.Rejects env → Q (.ok ()) ((w.accessed env).putPolicy policy)) :
    wp (PolicyStore.save env policy) Q w := by
  refine wp_execute (f := fun w => w.putPolicy policy) h
    (fun b => saveRecord_run (w := w.withBreaker b) h) (fun b => h)
    (fun _ => rfl) (fun b b' change => ?_) hrejected hadmitted
  obtain _ | ⟨source, target, reason⟩ := change
  · rfl
  · cases target <;> rfl

end Faultless

end Ambit
