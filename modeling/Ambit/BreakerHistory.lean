import Ambit.Faultless
import Ambit.Lib.Machine

/-! `CircuitBreaker.execute` over whatever it protects, and its specification: a circuit breaker that
has no state but the calls that it let through. -/

namespace Ambit

open Effect

variable {σ ε α : Type}

/-- What a caller of `execute` catches: a `CircuitOpenError`, or what the function threw. -/
inductive Rejection (ε : Type) where
  | circuitOpen (message : String)
  | thrown (err : ε)

/-! ## The circuit breaker -/

/-- A circuit breaker, the changes that its callback was told of, and what the functions that it
runs work on. -/
structure Guarded (σ : Type) where
  breaker : CircuitBreaker
  changes : List CircuitStateChange
  outside : σ

namespace Guarded

def transition (f : CircuitBreaker → CircuitBreaker × Option CircuitStateChange) :
    EStateM (Rejection ε) (Guarded σ) Unit :=
  modify fun g =>
    { g with breaker := (f g.breaker).1, changes := g.changes ++ (f g.breaker).2.toList }

/-- `fn()` -/
def apply (fn : EStateM ε σ α) : EStateM (Rejection ε) (Guarded σ) α := fun g =>
  match fn g.outside with
  | .ok value outside => .ok value { g with outside }
  | .error err outside => .error (.thrown err) { g with outside }

def execute (cfg : CircuitBreakerConfig) (fn : EStateM ε σ α) (now : Int) :
    EStateM (Rejection ε) (Guarded σ) α := do
  let g ← get
  if g.breaker.state = .opened ∧ now - g.breaker.openedAt < cfg.cooldownMs then
    throw (.circuitOpen circuitOpenMessage)
  else
    -- the cooldown has elapsed: this call is the trial probe
    let probe : CircuitBreaker :=
      if g.breaker.state = .opened then { g.breaker with state := .halfOpen } else g.breaker
    set { g with breaker := probe }
    let outcome ← attempt do
      if g.breaker.simulatingOutage then throw (.circuitOpen "simulated outage")
      else
        let result ← apply fn
        transition CircuitBreaker.onSuccess
        return result
    match outcome with
    | .ok result => return result
    | .error err =>
      transition (CircuitBreaker.onFailure cfg now)
      throw err

theorem wp_apply {fn : EStateM ε σ α} {g : Guarded σ}
    {Q : Except (Rejection ε) α → Guarded σ → Prop}
    (hok : ∀ value outside, fn g.outside = .ok value outside → Q (.ok value) { g with outside })
    (herror : ∀ err outside, fn g.outside = .error err outside →
      Q (.error (.thrown err)) { g with outside }) : wp (apply fn) Q g := by
  unfold wp apply
  cases hfn : fn g.outside with
  | ok value outside => exact hok value outside hfn
  | error err outside => exact herror err outside hfn

/-- The breaker while a call that was let through runs. -/
def probe (g : Guarded σ) : CircuitBreaker :=
  if g.breaker.state = .opened then { g.breaker with state := .halfOpen } else g.breaker

/-- The breaker is open, and its cooldown has not elapsed. -/
def CoolingDown (cfg : CircuitBreakerConfig) (now : Int) (g : Guarded σ) : Prop :=
  g.breaker.state = .opened ∧ now - g.breaker.openedAt < cfg.cooldownMs

/-- The state after a call that was let through and succeeded. -/
def succeeded (g : Guarded σ) (outside : σ) : Guarded σ :=
  ⟨g.probe.onSuccess.1, g.changes ++ g.probe.onSuccess.2.toList, outside⟩

/-- The state after a call that was let through and failed. -/
def failed (cfg : CircuitBreakerConfig) (now : Int) (g : Guarded σ) (outside : σ) : Guarded σ :=
  ⟨(g.probe.onFailure cfg now).1, g.changes ++ (g.probe.onFailure cfg now).2.toList, outside⟩

/-- The four ways that a call goes. -/
theorem wp_execute {cfg : CircuitBreakerConfig} {fn : EStateM ε σ α} {now : Int} {g : Guarded σ}
    {Q : Except (Rejection ε) α → Guarded σ → Prop}
    (hrefused : g.CoolingDown cfg now → Q (.error (.circuitOpen circuitOpenMessage)) g)
    (hdown : ¬ g.CoolingDown cfg now → g.breaker.simulatingOutage = true →
      Q (.error (.circuitOpen "simulated outage")) (g.failed cfg now g.outside))
    (hok : ¬ g.CoolingDown cfg now → g.breaker.simulatingOutage = false → ∀ value outside,
      fn g.outside = .ok value outside → Q (.ok value) (g.succeeded outside))
    (herror : ¬ g.CoolingDown cfg now → g.breaker.simulatingOutage = false → ∀ err outside,
      fn g.outside = .error err outside → Q (.error (.thrown err)) (g.failed cfg now outside)) :
    wp (execute cfg fn now) Q g := by
  refine wp_bind (wp_get (wp_ite (fun hcooling => wp_throw (hrefused hcooling)) fun hcooling => ?_))
  refine wp_bind (wp_set (wp_bind (wp_attempt (wp_ite (fun houtage => ?_) fun houtage => ?_))))
  · exact wp_throw (wp_bind (wp_modify (wp_throw (hdown hcooling houtage))))
  · have hup : g.breaker.simulatingOutage = false := Bool.eq_false_iff.mpr houtage
    refine wp_bind (wp_apply (fun value outside hfn => ?_) fun err outside hfn => ?_)
    · exact wp_bind (wp_modify (wp_pure (wp_pure (hok hcooling hup value outside hfn))))
    · exact wp_bind (wp_modify (wp_throw (herror hcooling hup err outside hfn)))

end Guarded

/-- What the users of a circuit breaker do: run any function through it, at any time, and switch the
simulated outage. -/
inductive BreakerAction (σ ε α : Type) where
  | execute (fn : EStateM ε σ α) (now : Int)
  | simulateOutage (down : Bool)

def breakerMachine (ε α : Type) (cfg : CircuitBreakerConfig) (outside : σ) :
    Machine (Guarded σ) (BreakerAction σ ε α) where
  init := ⟨.initial, [], outside⟩
  step g
    | .execute fn now => after (Guarded.execute cfg fn now) g
    | .simulateOutage down => { g with breaker := g.breaker.simulateOutage down }

/-! ## The specification -/

/-- A call that was let through: when, and whether it failed. -/
structure Admission where
  time : Int
  failed : Bool

/-- The failures since the last success, the latest first. -/
def failures (admitted : List Admission) : List Admission := admitted.takeWhile (·.failed)

/-- The circuit is open if the last `failureThreshold` calls that were let through have all failed.
It has been since the last of them: that one tripped it, or was a failed probe. -/
def openSince (cfg : CircuitBreakerConfig) (admitted : List Admission) : Option Int :=
  if cfg.failureThreshold ≤ (failures admitted).length then admitted.head?.map (·.time) else none

/-- What the callback is told of a call that was let through. -/
def changeOf (cfg : CircuitBreakerConfig) (admitted : List Admission) (last : Admission) :
    Option CircuitStateChange :=
  match openSince cfg admitted, openSince cfg (last :: admitted) with
  | none, none => none
  | none, some _ => some ⟨.closed, .opened, .failureThresholdReached⟩
  | some _, some _ => some ⟨.halfOpen, .opened, .probeFailed⟩
  | some _, none => some ⟨.halfOpen, .closed, .probeSucceeded⟩

/-- The calls that were let through, the latest first, and whether an outage is simulated. -/
structure BreakerHistory (σ : Type) where
  admitted : List Admission
  outage : Bool
  changes : List CircuitStateChange
  outside : σ

namespace BreakerHistory

variable (cfg : CircuitBreakerConfig)

def letThrough (h : BreakerHistory σ) (last : Admission) (outside : σ) : BreakerHistory σ :=
  { h with
    admitted := last :: h.admitted
    changes := h.changes ++ (changeOf cfg h.admitted last).toList
    outside }

/-- The circuit is open, and its cooldown has not elapsed. -/
def Refuses (h : BreakerHistory σ) (now : Int) : Prop :=
  ∃ t ∈ openSince cfg h.admitted, now - t < cfg.cooldownMs

instance (h : BreakerHistory σ) (now : Int) : Decidable (h.Refuses cfg now) :=
  inferInstanceAs (Decidable (∃ t ∈ openSince cfg h.admitted, _))

def execute (fn : EStateM ε σ α) (now : Int) (h : BreakerHistory σ) :
    Except (Rejection ε) α × BreakerHistory σ :=
  if h.Refuses cfg now then (.error (.circuitOpen circuitOpenMessage), h)
  else if h.outage then
    (.error (.circuitOpen "simulated outage"), h.letThrough cfg ⟨now, true⟩ h.outside)
  else
    match fn h.outside with
    | .ok value outside => (.ok value, h.letThrough cfg ⟨now, false⟩ outside)
    | .error err outside => (.error (.thrown err), h.letThrough cfg ⟨now, true⟩ outside)

end BreakerHistory

def historyMachine (ε α : Type) (cfg : CircuitBreakerConfig) (outside : σ) :
    Machine (BreakerHistory σ) (BreakerAction σ ε α) where
  init := ⟨[], false, [], outside⟩
  step h
    | .execute fn now => (h.execute cfg fn now).2
    | .simulateOutage down => { h with outage := down }

/-! ## Refinement -/

section
variable {cfg : CircuitBreakerConfig} {admitted : List Admission} {now : Int}

theorem openSince_isSome (hthreshold : 1 ≤ cfg.failureThreshold) :
    (openSince cfg admitted).isSome = true ↔ cfg.failureThreshold ≤ (failures admitted).length := by
  unfold openSince
  cases admitted with
  | nil =>
    have hnone : ¬ cfg.failureThreshold ≤ (failures []).length := by
      simp only [failures, List.takeWhile_nil, List.length_nil]
      omega
    simp [hnone]
  | cons last rest => split <;> simp_all

theorem openSince_success (hthreshold : 1 ≤ cfg.failureThreshold) :
    openSince cfg (⟨now, false⟩ :: admitted) = none := by
  refine if_neg ?_
  simp only [failures, List.takeWhile_cons, Bool.false_eq_true, if_false, List.length_nil]
  omega

theorem openSince_failure :
    openSince cfg (⟨now, true⟩ :: admitted) =
      if cfg.failureThreshold ≤ ((failures admitted).length + 1 : ℕ) then some now else none := rfl

/-- The circuit breaker is in the state that the calls it let through have brought it to; between two
calls it is closed or open. -/
structure Remembers (cfg : CircuitBreakerConfig) (g : Guarded σ) (h : BreakerHistory σ) : Prop where
  state : g.breaker.state = if (openSince cfg h.admitted).isSome then .opened else .closed
  openedAt : ∀ t ∈ openSince cfg h.admitted, g.breaker.openedAt = t
  consecutiveFailures : g.breaker.consecutiveFailures = (failures h.admitted).length
  outage : g.breaker.simulatingOutage = h.outage
  changes : g.changes = h.changes
  outside : g.outside = h.outside

variable {g : Guarded σ} {h : BreakerHistory σ}

theorem Remembers.refuses_iff (hr : Remembers cfg g h) :
    g.CoolingDown cfg now ↔ h.Refuses cfg now := by
  unfold BreakerHistory.Refuses Guarded.CoolingDown
  rw [hr.state]
  cases hopen : openSince cfg h.admitted with
  | none => simp
  | some t =>
    rw [hr.openedAt t hopen]
    simp

theorem Remembers.succeeds (hr : Remembers cfg g h) (hthreshold : 1 ≤ cfg.failureThreshold)
    (outside : σ) :
    Remembers cfg (g.succeeded outside) (h.letThrough cfg ⟨now, false⟩ outside) := by
  unfold Guarded.succeeded
  obtain ⟨⟨state, count, openedAt, outage⟩, changes, _⟩ := g
  obtain ⟨hstate, -, -, houtage, hchanges, -⟩ := hr
  simp only at hstate houtage hchanges
  have hclosed : openSince cfg (⟨now, false⟩ :: h.admitted) = none := openSince_success hthreshold
  cases hopen : openSince cfg h.admitted with
  | none =>
    obtain rfl : state = .closed := by simpa [hopen] using hstate
    refine ⟨?_, ?_, rfl, houtage, ?_, rfl⟩
    all_goals simp [BreakerHistory.letThrough, changeOf, Guarded.probe, CircuitBreaker.onSuccess, hclosed,
      hopen, hchanges]
  | some t =>
    obtain rfl : state = .opened := by simpa [hopen] using hstate
    refine ⟨?_, ?_, rfl, houtage, ?_, rfl⟩
    all_goals simp [BreakerHistory.letThrough, changeOf, Guarded.probe, CircuitBreaker.onSuccess,
      CircuitBreaker.transition, hclosed, hopen, hchanges]

section
variable {count : ℕ} {openedAt : ℤ} {outage : Bool}

theorem onFailure_trips (h : cfg.failureThreshold ≤ (count + 1 : ℕ)) :
    CircuitBreaker.onFailure cfg now ⟨.closed, count, openedAt, outage⟩ =
      (⟨.opened, count + 1, now, outage⟩, some ⟨.closed, .opened, .failureThresholdReached⟩) := by
  simp only [CircuitBreaker.onFailure]
  rw [if_neg CircuitState.noConfusion, if_pos ⟨trivial, h⟩]
  rfl

theorem onFailure_counts (h : ¬ cfg.failureThreshold ≤ (count + 1 : ℕ)) :
    CircuitBreaker.onFailure cfg now ⟨.closed, count, openedAt, outage⟩ =
      (⟨.closed, count + 1, openedAt, outage⟩, none) := by
  simp only [CircuitBreaker.onFailure]
  rw [if_neg CircuitState.noConfusion, if_neg fun hreached => h hreached.2]

end

theorem Remembers.fails (hr : Remembers cfg g h) (hthreshold : 1 ≤ cfg.failureThreshold)
    (outside : σ) :
    Remembers cfg (g.failed cfg now outside) (h.letThrough cfg ⟨now, true⟩ outside) := by
  unfold Guarded.failed
  obtain ⟨⟨state, count, openedAt, outage⟩, changes, _⟩ := g
  obtain ⟨hstate, -, hcount, houtage, hchanges, -⟩ := hr
  simp only at hstate hcount houtage hchanges
  obtain rfl := hcount
  have hnext : openSince cfg (⟨now, true⟩ :: h.admitted) =
      if cfg.failureThreshold ≤ ((failures h.admitted).length + 1 : ℕ) then some now else none :=
    openSince_failure
  cases hopen : openSince cfg h.admitted with
  | none =>
    obtain rfl : state = .closed := by simpa [hopen] using hstate
    simp only [Guarded.probe, reduceCtorEq, if_false]
    by_cases htrips : cfg.failureThreshold ≤ ((failures h.admitted).length + 1 : ℕ)
    · rw [if_pos htrips] at hnext
      rw [onFailure_trips htrips]
      refine ⟨?_, ?_, rfl, houtage, ?_, rfl⟩
      all_goals simp [BreakerHistory.letThrough, changeOf, hnext, hopen, hchanges]
    · rw [if_neg htrips] at hnext
      rw [onFailure_counts htrips]
      refine ⟨?_, ?_, rfl, houtage, ?_, rfl⟩
      all_goals simp [BreakerHistory.letThrough, changeOf, hnext, hopen, hchanges]
  | some t =>
    obtain rfl : state = .opened := by simpa [hopen] using hstate
    have hopened : cfg.failureThreshold ≤ (failures h.admitted).length :=
      (openSince_isSome hthreshold).mp (by rw [hopen]; rfl)
    rw [if_pos (by omega)] at hnext
    refine ⟨?_, ?_, rfl, houtage, ?_, rfl⟩
    all_goals simp [BreakerHistory.letThrough, changeOf, Guarded.probe, CircuitBreaker.onFailure,
      CircuitBreaker.transition, hnext, hopen, hchanges]

/-- **A call.** Its outcome is the specified one, and so are its effects. -/
theorem Remembers.execute (hr : Remembers cfg g h) (hthreshold : 1 ≤ cfg.failureThreshold)
    (fn : EStateM ε σ α) (now : Int) :
    wp (Guarded.execute cfg fn now) (fun r g' => r = (h.execute cfg fn now).1 ∧
      Remembers cfg g' (h.execute cfg fn now).2) g := by
  have hadmits : ¬ g.CoolingDown cfg now → ¬ h.Refuses cfg now := hr.refuses_iff.not.mp
  unfold BreakerHistory.execute
  rw [← hr.outage, ← hr.outside]
  refine Guarded.wp_execute (fun hcooling => ?_) (fun hcooling hdown => ?_)
    (fun hcooling hup value outside hfn => ?_) fun hcooling hup err outside hfn => ?_
  · rw [if_pos (hr.refuses_iff.mp hcooling)]
    exact ⟨rfl, hr⟩
  · rw [if_neg (hadmits hcooling), if_pos hdown]
    exact ⟨rfl, hr.fails hthreshold g.outside⟩
  · rw [if_neg (hadmits hcooling), if_neg (Bool.eq_false_iff.mp hup), hfn]
    exact ⟨rfl, hr.succeeds hthreshold outside⟩
  · rw [if_neg (hadmits hcooling), if_neg (Bool.eq_false_iff.mp hup), hfn]
    exact ⟨rfl, hr.fails hthreshold outside⟩

theorem Remembers.initial (hthreshold : 1 ≤ cfg.failureThreshold) (outside : σ) :
    Remembers cfg ⟨.initial, [], outside⟩ ⟨[], false, [], outside⟩ := by
  have hclosed : openSince cfg [] = none := by
    rw [← Option.not_isSome_iff_eq_none, openSince_isSome hthreshold]
    simp only [failures, List.takeWhile_nil, List.length_nil]
    omega
  refine ⟨?_, ?_, rfl, rfl, rfl, rfl⟩
  all_goals simp [hclosed, CircuitBreaker.initial]

end

theorem remembers_run {cfg : CircuitBreakerConfig} (hthreshold : 1 ≤ cfg.failureThreshold)
    (outside : σ) (acts : List (BreakerAction σ ε α)) :
    Remembers cfg ((breakerMachine ε α cfg outside).run acts)
      ((historyMachine ε α cfg outside).run acts) := by
  induction acts using List.reverseRecOn with
  | nil => exact Remembers.initial hthreshold outside
  | append_singleton acts a ih =>
    rw [Machine.run_snoc, Machine.run_snoc]
    cases a with
    | execute fn now => exact (wp_iff.mp (ih.execute hthreshold fn now)).2
    | simulateOutage down =>
      exact ⟨ih.state, ih.openedAt, ih.consecutiveFailures, rfl, ih.changes, ih.outside⟩

/-- **The circuit breaker refines its specification.** After every sequence of calls, of any functions
at any times, and of toggles, it is where the specification is, and the next call has the outcome and
the effects that the specification says. -/
theorem breaker_refines {cfg : CircuitBreakerConfig} (hthreshold : 1 ≤ cfg.failureThreshold)
    (outside : σ) (acts : List (BreakerAction σ ε α)) :
    Remembers cfg ((breakerMachine ε α cfg outside).run acts)
        ((historyMachine ε α cfg outside).run acts) ∧
      ∀ (fn : EStateM ε σ α) now,
        wp (Guarded.execute cfg fn now) (fun r g' =>
          r = (((historyMachine ε α cfg outside).run acts).execute cfg fn now).1 ∧
            Remembers cfg g' (((historyMachine ε α cfg outside).run acts).execute cfg fn now).2)
          ((breakerMachine ε α cfg outside).run acts) :=
  ⟨remembers_run hthreshold outside acts, fun fn now =>
    (remembers_run hthreshold outside acts).execute hthreshold fn now⟩

/-- A function that throws trips a breaker with the threshold one. -/
theorem breaker_refines_sample :
    Remembers ⟨1, 5000⟩ ((breakerMachine Unit Unit ⟨1, 5000⟩ ()).run [.execute (throw ()) 0])
        ((historyMachine Unit Unit ⟨1, 5000⟩ ()).run [.execute (throw ()) 0]) ∧
      ∀ (fn : EStateM Unit Unit Unit) now,
        wp (Guarded.execute ⟨1, 5000⟩ fn now) (fun r g' =>
          r = (((historyMachine Unit Unit ⟨1, 5000⟩ ()).run [.execute (throw ()) 0]).execute
              ⟨1, 5000⟩ fn now).1 ∧
            Remembers ⟨1, 5000⟩ g' (((historyMachine Unit Unit ⟨1, 5000⟩ ()).run
              [.execute (throw ()) 0]).execute ⟨1, 5000⟩ fn now).2)
          ((breakerMachine Unit Unit ⟨1, 5000⟩ ()).run [.execute (throw ()) 0]) :=
  breaker_refines (by decide) () [.execute (throw ()) 0]

end Ambit
