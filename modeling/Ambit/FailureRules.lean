import Ambit.AuditFailures
import Ambit.Rules

/-! The operations when file operations may fail, from any state: what of the state each changes,
and which of the next failures decides how it ends. -/

namespace Ambit

open Effect

variable {env : Env} {w w' : World} {α : Type}

/-! ## Log entries -/

/-- The state after one `record` call that was not refused: the entry is in memory, whatever became
of its line, and nothing else is different but what the call has used up. -/
structure World.Noted (w : World) (entry : AuditEntryInput) (w' : World) : Prop where
  tokenStore_eq : w'.tokenStore = w.tokenStore
  requestStore_eq : w'.requestStore = w.requestStore
  policyStore_eq : w'.policyStore = w.policyStore
  breaker_eq : w'.storeCircuitBreaker = w.storeCircuitBreaker
  clock_eq : w'.clock = w.clock
  faults_eq : w'.faults = w.faults.tail.tail
  entries_eq : ∃ full : AuditLogEntry, full.toAuditEntryInput = entry ∧
    w'.auditLog.entries = w.auditLog.entries ++ [full]

/-- With nothing the matter with the rename, the append decides. -/
def appendResult (fails : Bool) : Except Err Unit := if fails then .error .io else .ok ()

/-- `record` writes its entry in memory first. -/
theorem wp_auditRecord_noted {entry : AuditEntryInput} (hreason : entry.lacksReason = false)
    (now : Int) : wp (auditRecord env entry now) (fun r w' => w.Noted entry w' ∧
      (r = .ok () ∨ r = .error .io) ∧
      (w.faults.headD false = false → r = appendResult (w.faults.tail.headD false))) w := by
  obtain ⟨full, hfull, hentries, hresult, hrenamed⟩ := AuditLog.record_spec env.toPlatform env.audit
    w.auditLog ⟨!w.faults.headD false, !w.faults.tail.headD false⟩ (env.randomUUID w.supply) hreason now
  simp only [wp, auditRecord, nextFault]
  generalize w.auditLog.record env.toPlatform env.audit
    ⟨!w.faults.headD false, !w.faults.tail.headD false⟩ (env.randomUUID w.supply) entry now = recorded
    at hentries hresult hrenamed ⊢
  obtain ⟨result, log⟩ := recorded
  have hnoted : ∀ {faults}, faults = w.faults.tail.tail → w.Noted entry
      { w with auditLog := log, supply := w.supply + 1, faults } :=
    fun hfaults => ⟨rfl, rfl, rfl, rfl, rfl, hfaults, full, hfull, hentries⟩
  have happended : w.faults.headD false = false →
      result = if w.faults.tail.headD false then .error .io else .ok full := by
    intro hrename
    have h := hrenamed (by rw [hrename]; rfl)
    cases happend : w.faults.tail.headD false <;> rw [happend] at h <;> exact h
  cases result with
  | ok =>
    refine ⟨hnoted rfl, by simp, fun hrename => ?_⟩
    cases happend : w.faults.tail.headD false with
    | false => rfl
    | true =>
      rw [happend] at happended
      cases happended hrename
  | error err =>
    obtain rfl : err = .io := by
      rcases hresult with h | h
      · cases h
      · exact Except.error.inj h
    refine ⟨hnoted rfl, by simp, fun hrename => ?_⟩
    cases happend : w.faults.tail.headD false with
    | true => rfl
    | false =>
      rw [happend] at happended
      cases happended hrename

/-- The entries in memory that a revocation wrote. -/
def World.revocations (w : World) : List AuditLogEntry :=
  w.auditLog.entries.filter (·.decision = .revoked)

theorem World.Noted.revocations_eq {entry : AuditEntryInput} (h : w.Noted entry w')
    (hdecision : entry.decision ≠ .revoked) : w'.revocations = w.revocations := by
  obtain ⟨full, rfl, hentries⟩ := h.entries_eq
  rw [World.revocations, hentries, List.filter_append, List.filter_cons_of_neg (by simpa using hdecision),
    List.filter_nil, List.append_nil, World.revocations]

/-! ## The breaker -/

/-- The state after the breaker has moved: it may have reported it. -/
structure World.Switched (w w' : World) : Prop where
  tokenStore_eq : w'.tokenStore = w.tokenStore
  requestStore_eq : w'.requestStore = w.requestStore
  policyStore_eq : w'.policyStore = w.policyStore
  revocations_eq : w'.revocations = w.revocations

theorem World.Switched.refl (w : World) : w.Switched w := ⟨rfl, rfl, rfl, rfl⟩

theorem World.Switched.trans {w'' : World} (h : w.Switched w') (h' : w'.Switched w'') :
    w.Switched w'' :=
  ⟨h'.tokenStore_eq.trans h.tokenStore_eq, h'.requestStore_eq.trans h.requestStore_eq,
    h'.policyStore_eq.trans h.policyStore_eq, h'.revocations_eq.trans h.revocations_eq⟩

theorem World.Switched.withBreaker (w : World) (b : CircuitBreaker) : w.Switched (w.withBreaker b) :=
  ⟨rfl, rfl, rfl, rfl⟩

theorem World.Noted.switched {entry : AuditEntryInput} (h : w.Noted entry w')
    (hdecision : entry.decision ≠ .revoked) : w.Switched w' :=
  ⟨h.tokenStore_eq, h.requestStore_eq, h.policyStore_eq, h.revocations_eq hdecision⟩

theorem wp_transition {f : CircuitBreaker → CircuitBreaker × Option CircuitStateChange}
    {b : CircuitBreaker} {change : Option CircuitStateChange} {Q : Except Err Unit → World → Prop}
    (hf : f w.storeCircuitBreaker = (b, change))
    (h : wp (match change with
      | some change => onStateChange env change
      | none => pure ()) Q (w.withBreaker b)) : wp (breakerTransition env f) Q w := by
  refine wp_bind (wp_get (wp_bind (wp_set ?_)))
  rw [hf]
  exact h

theorem wp_breakerTransition_switched
    (f : CircuitBreaker → CircuitBreaker × Option CircuitStateChange) :
    wp (breakerTransition env f) (fun r w' => w.Switched w' ∧ (r = .ok () ∨ r = .error .io)) w := by
  have hset := World.Switched.withBreaker w (f w.storeCircuitBreaker).1
  rcases hf : f w.storeCircuitBreaker with ⟨b, change⟩
  rw [hf] at hset
  refine wp_transition hf ?_
  cases change with
  | none => exact wp_pure ⟨hset, .inl rfl⟩
  | some change =>
    refine wp_bind (wp_now ?_)
    have hnote : ∀ entry : AuditEntryInput, entry.lacksReason = false → entry.decision ≠ .revoked →
        wp (auditRecord env entry w.clock) (fun r w' => w.Switched w' ∧ (r = .ok () ∨ r = .error .io))
          (w.withBreaker b) := fun entry hreason hdecision =>
      wp_mono (wp_auditRecord_noted hreason _) fun r w' h =>
        ⟨hset.trans (h.1.switched hdecision), h.2.1⟩
    cases change.target with
    | opened => exact hnote _ (World.circuitEntry_lacksReason ..) (by simp [circuitEntry])
    | closed => exact hnote _ (World.circuitEntry_lacksReason ..) (by simp [circuitEntry])
    | halfOpen => exact wp_pure ⟨hset, .inl rfl⟩

/-- An access that is admitted is a trial probe. -/
def World.Probes (w : World) : Prop := w.storeCircuitBreaker.state ≠ .closed

instance (w : World) : Decidable w.Probes := inferInstanceAs (Decidable (_ ≠ _))

theorem World.probe_state (w : World) : w.probe.state = .halfOpen ↔ w.Probes := by
  unfold World.probe World.Probes
  cases h : w.storeCircuitBreaker.state <;> simp [h]

/-- The breaker after a success. -/
theorem wp_onSuccess : wp (breakerTransition env CircuitBreaker.onSuccess) (fun r w' =>
    if w.storeCircuitBreaker.state = .halfOpen then
      (w.withBreaker w.storeCircuitBreaker.onSuccess.1).Noted
          (circuitEntry .circuitClosed .probeSucceeded) w' ∧ (r = .ok () ∨ r = .error .io) ∧
        (w.faults.headD false = false → r = appendResult (w.faults.tail.headD false))
    else r = .ok () ∧ w' = w.withBreaker w.storeCircuitBreaker.onSuccess.1) w := by
  have hchange : w.storeCircuitBreaker.onSuccess.2 = if w.storeCircuitBreaker.state = .halfOpen then
      some ⟨.halfOpen, .closed, .probeSucceeded⟩ else none := by
    unfold CircuitBreaker.onSuccess CircuitBreaker.transition
    dsimp only
    split <;> simp_all
  rcases hf : w.storeCircuitBreaker.onSuccess with ⟨b, change⟩
  rw [hf] at hchange
  refine wp_transition hf ?_
  split at hchange
  · rename_i hstate
    obtain rfl : change = _ := hchange
    simp only [if_pos hstate]
    exact wp_bind (wp_now (wp_auditRecord_noted (World.circuitEntry_lacksReason ..) _))
  · rename_i hstate
    obtain rfl : change = _ := hchange
    simp only [if_neg hstate]
    exact wp_pure ⟨rfl, rfl⟩

/-- The exception that gets out of `execute`: that of the report on it, if this fails too. -/
def lastError (err : Err) : Except Err Unit → Err
  | .ok _ => err
  | .error err' => err'

/-- An operation run through the breaker. -/
theorem wp_execute_failing {fn : Op α} {Q : Except Err α → World → Prop}
    (hrejected : w.Rejects env → ∀ err w', w.Switched w' → Q (.error err) w')
    (hfn : ¬ w.Rejects env → wp fn (fun r w₁ => match r with
      | .ok a => wp (breakerTransition env CircuitBreaker.onSuccess) (fun r w₂ => match r with
          | .ok _ => Q (.ok a) w₂
          | .error _ => ∀ w₃, w₂.Switched w₃ → Q (.error .io) w₃) w₁
      | .error err => ∀ report w₂, w₁.Switched w₂ → (report = .ok () ∨ report = .error .io) →
          Q (.error (lastError err report)) w₂) (w.withBreaker w.probe)) :
    wp (execute env fn) Q w := by
  have hthrow : ∀ (err : Err) (now : Int) (w₁ : World) (Q : Except Err α → World → Prop),
      (∀ report w₂, w₁.Switched w₂ → (report = .ok () ∨ report = .error .io) →
        Q (.error (lastError err report)) w₂) →
      wp (do breakerTransition env (CircuitBreaker.onFailure env.circuitBreaker now)
             throw err) Q w₁ := by
    intro err now w₁ Q hQ
    refine wp_bind (wp_mono (wp_breakerTransition_switched _) fun report w₂ ⟨hswitched, hreport⟩ => ?_)
    have h := hQ report w₂ hswitched hreport
    cases report with
    | ok => exact wp_throw h
    | error => exact h
  refine wp_bind (wp_get (wp_ite ?_ ?_))
  · intro (hcooling : w.CoolingDown env)
    exact wp_throw (hrejected (.inl hcooling) _ _ (.refl w))
  · intro (hcooling : ¬ w.CoolingDown env)
    refine wp_bind (wp_set (wp_bind (wp_attempt (wp_ite ?_ ?_))))
    · intro hout
      refine wp_throw (hthrow _ _ _ _ fun report w₂ hswitched _ => ?_)
      exact hrejected (.inr hout) _ _ ((World.Switched.withBreaker w _).trans hswitched)
    · intro hout
      refine wp_bind (wp_mono (hfn (not_or.mpr ⟨hcooling, hout⟩)) fun r w₁ hr => ?_)
      cases r with
      | error err => exact hthrow err _ w₁ Q hr
      | ok a =>
        refine wp_bind (wp_mono (wp_and hr (wp_breakerTransition_switched _)) ?_)
        rintro report w₂ ⟨hQ, -, hreport⟩
        cases report with
        | ok => exact wp_pure (wp_pure hQ)
        | error err =>
          obtain rfl : err = .io := by
            rcases hreport with h | h
            · cases h
            · exact Except.error.inj h
          refine hthrow _ _ w₂ Q fun report w₃ hswitched hreport => ?_
          rcases hreport with rfl | rfl <;> exact hQ w₃ hswitched

/-- The breaker that a success leaves behind lets accesses through without a trace. -/
theorem World.flowing_onSuccess (h : ¬ w.Rejects env) (hbreaker : w'.storeCircuitBreaker =
    w.probe.onSuccess.1) : w'.Flowing := by
  refine (World.flowing_accessed h).of_breaker ?_
  rw [hbreaker]
  exact (World.reported_breaker (w.withBreaker w.probe.onSuccess.1) _).symm

/-- How an access ends whose own part has succeeded: a probe that closes the breaker logs this. -/
def World.Ends (w : World) (r : Except Err α) (value : α) (faults : List Bool) (w' : World) : Prop :=
  if w.Probes then
    (r = .error .io ∨ r = .ok value ∧ w'.Flowing ∧ w'.faults = faults.tail.tail) ∧
      (faults.headD false = false → (r = .ok value ↔ faults.tail.headD false = false))
  else r = .ok value ∧ w'.Flowing ∧ w'.faults = faults

/-- The part of an access after its own operation has succeeded. -/
theorem wp_ends {w₁ : World} {a : α} {Q : Except Err α → World → Prop} (h : ¬ w.Rejects env)
    (hbreaker : w₁.storeCircuitBreaker = w.probe)
    (hQ : ∀ r w', w₁.Switched w' → w.Ends r a w₁.faults w' → Q r w') :
    wp (breakerTransition env CircuitBreaker.onSuccess) (fun r w₂ => match r with
      | .ok _ => Q (.ok a) w₂
      | .error _ => ∀ w₃, w₂.Switched w₃ → Q (.error .io) w₃) w₁ := by
  refine wp_mono wp_onSuccess fun r w₂ hr => ?_
  have hset := World.Switched.withBreaker w₁ w₁.storeCircuitBreaker.onSuccess.1
  have hends : ∀ (r : Except Err α) (w' : World), w.Probes →
      ((r = .error .io ∨ r = .ok a ∧ w'.Flowing ∧ w'.faults = w₁.faults.tail.tail) ∧
        (w₁.faults.headD false = false → (r = .ok a ↔ w₁.faults.tail.headD false = false))) →
      w.Ends r a w₁.faults w' := by
    intro r w' hprobes hr
    rw [World.Ends, if_pos hprobes]
    exact hr
  simp only [hbreaker, World.probe_state] at hr
  split at hr
  · rename_i hprobes
    obtain ⟨hnoted, hresult, hrename⟩ := hr
    have hswitched := (World.Switched.withBreaker w₁ w.probe.onSuccess.1).trans
      (hnoted.switched (by simp [circuitEntry]))
    cases r with
    | ok =>
      have hflow := World.flowing_onSuccess h hnoted.breaker_eq
      refine hQ _ _ hswitched (hends _ _ hprobes ⟨.inr ⟨rfl, hflow, hnoted.faults_eq⟩, fun hhead => ?_⟩)
      have happend := hrename hhead
      cases hflag : w₁.faults.tail.headD false with
      | false => simp
      | true =>
        rw [hflag] at happend
        cases happend
    | error err =>
      refine fun w₃ hswitched' => hQ _ _ (hswitched.trans hswitched')
        (hends _ _ hprobes ⟨.inl rfl, fun hhead => ?_⟩)
      have happend := hrename hhead
      cases hflag : w₁.faults.tail.headD false with
      | true => simp
      | false =>
        rw [hflag] at happend
        cases happend
  · rename_i hprobes
    obtain ⟨rfl, rfl⟩ := hr
    refine hQ _ _ (.withBreaker _ _) ?_
    rw [World.Ends, if_neg hprobes]
    exact ⟨rfl, World.flowing_onSuccess h rfl, rfl⟩

/-! ## The guarded stores -/

theorem wp_saveRecord_failing {ρ : Type} {key : ρ → String} {image : ρ → ρ}
    {store : World → Journal String ρ} {put : World → Journal String ρ → World} {record : ρ}
    {fails : Bool} (hfails : w.faults.headD false = fails) :
    wp (saveRecord key image store put record) (fun r w' => r = appendResult fails ∧
      w' = put { w with faults := w.faults.tail } ((store w).save key image (!fails) record)) w := by
  cases fails <;>
    simp [wp, saveRecord, nextFault, appendResult, hfails, -List.headD_eq_head?_getD]

/-- Reading a guarded store. -/
theorem wp_read {g : World → α} (hg : ∀ w b, g (World.withBreaker w b) = g w) :
    wp (execute env do return g (← get)) (fun r w' => w.Switched w' ∧
      if w.Rejects env then ∃ err, r = .error err else w.Ends r (g w) w.faults w') w := by
  refine wp_execute_failing (fun hrejects err w' hswitched => ⟨hswitched, ?_⟩) fun hadmits => ?_
  · rw [if_pos hrejects]
    exact ⟨err, rfl⟩
  · refine wp_bind (wp_get (wp_pure ?_))
    simp only [if_neg hadmits, hg]
    exact wp_ends (Q := fun r w' => w.Switched w' ∧ w.Ends r (g w) w.faults w') hadmits rfl
      fun r w' hswitched hends => ⟨(World.Switched.withBreaker w _).trans hswitched, hends⟩

theorem TokenStore.wp_get_failing (id : String) : wp (TokenStore.get env id) (fun r w' =>
    w.Switched w' ∧ if w.Rejects env then ∃ err, r = .error err
      else w.Ends r (w.tokenStore.live.get id) w.faults w') w :=
  wp_read fun _ _ => rfl

theorem PolicyStore.wp_get_failing (id : String) : wp (PolicyStore.get env id) (fun r w' =>
    w.Switched w' ∧ if w.Rejects env then ∃ err, r = .error err
      else w.Ends r (w.policyStore.live.get id) w.faults w') w :=
  wp_read fun _ _ => rfl

/-- The state after a token was put into the store: in its map, and perhaps in its file. -/
structure World.Stored (w : World) (t : Token) (w' : World) : Prop where
  live_eq : w'.tokenStore.live = w.tokenStore.live.set t.id t
  requestStore_eq : w'.requestStore = w.requestStore
  policyStore_eq : w'.policyStore = w.policyStore
  revocations_eq : w'.revocations = w.revocations

/-- Saving a token: whatever happens to the append, and after it, the map has the token. -/
theorem TokenStore.wp_save_failing (t : Token) : wp (TokenStore.save env t) (fun r w' =>
    if w.Rejects env then (∃ err, r = .error err) ∧ w.Switched w'
    else w.Stored t w' ∧ if w.faults.headD false then r = .error .io
      else w.Ends r () w.faults.tail w') w := by
  refine wp_execute_failing (fun hrejects err w' hswitched => ?_) fun hadmits => ?_
  · rw [if_pos hrejects]
    exact ⟨⟨err, rfl⟩, hswitched⟩
  · have hstored : ∀ {appended faults} {w' : World},
        World.Switched { w.withBreaker w.probe with
          tokenStore := w.tokenStore.save Token.id Token.image appended t, faults } w' →
        w.Stored t w' := by
      intro appended faults w' hswitched
      refine ⟨?_, hswitched.requestStore_eq, hswitched.policyStore_eq, hswitched.revocations_eq⟩
      rw [hswitched.tokenStore_eq]
      rfl
    simp only [if_neg hadmits]
    cases hfails : w.faults.headD false with
    | true =>
      refine wp_mono (wp_saveRecord_failing hfails) ?_
      rintro r w₁ ⟨rfl, rfl⟩ report w₂ hswitched hreport
      refine ⟨hstored hswitched, ?_⟩
      rcases hreport with rfl | rfl <;> rfl
    | false =>
      refine wp_mono (wp_saveRecord_failing hfails) ?_
      rintro r w₁ ⟨rfl, rfl⟩
      exact wp_ends (Q := fun r w' => w.Stored t w' ∧ w.Ends r () w.faults.tail w') hadmits rfl
        fun r w' hswitched hends => ⟨hstored hswitched, hends⟩

end Ambit
