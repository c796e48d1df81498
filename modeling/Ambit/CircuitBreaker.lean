import Ambit.Values

/-! `circuitBreaker.ts`: the state machine of the circuit breaker. `execute`, which runs an
operation through it, is defined over the whole process state in `Ambit.World`. -/

namespace Ambit

/-- `"open"` is `opened` here. -/
inductive CircuitState where
  | closed
  | opened
  | halfOpen
  deriving DecidableEq

structure CircuitBreakerConfig where
  failureThreshold : Int
  cooldownMs : Int

inductive CircuitTransitionReason where
  | failureThresholdReached
  | probeSucceeded
  | probeFailed
  deriving DecidableEq

def CircuitTransitionReason.text : CircuitTransitionReason → String
  | .failureThresholdReached => "failure_threshold_reached"
  | .probeSucceeded => "probe_succeeded"
  | .probeFailed => "probe_failed"

structure CircuitStateChange where
  source : CircuitState
  target : CircuitState
  reason : CircuitTransitionReason
  deriving DecidableEq

structure CircuitBreaker where
  state : CircuitState
  consecutiveFailures : Nat
  openedAt : Int
  simulatingOutage : Bool
  deriving DecidableEq

/-- The default message of `CircuitOpenError`. -/
def circuitOpenMessage : String :=
  "circuit breaker is open — the store is currently unreachable"

namespace CircuitBreaker

def initial : CircuitBreaker := ⟨.closed, 0, 0, false⟩

def simulateOutage (down : Bool) (b : CircuitBreaker) : CircuitBreaker :=
  { b with simulatingOutage := down }

/-- `#transition`, with the change that `#onStateChange` is told of. -/
def transition (target : CircuitState) (reason : CircuitTransitionReason) (b : CircuitBreaker) :
    CircuitBreaker × Option CircuitStateChange :=
  ({ b with state := target }, some ⟨b.state, target, reason⟩)

/-- `#onSuccess` -/
def onSuccess (b : CircuitBreaker) : CircuitBreaker × Option CircuitStateChange :=
  let b := { b with consecutiveFailures := 0 }
  if b.state = .halfOpen then b.transition .closed .probeSucceeded else (b, none)

/-- `#onFailure` -/
def onFailure (cfg : CircuitBreakerConfig) (now : Int) (b : CircuitBreaker) :
    CircuitBreaker × Option CircuitStateChange :=
  let b := { b with consecutiveFailures := b.consecutiveFailures + 1 }
  if b.state = .halfOpen then
    { b with openedAt := now }.transition .opened .probeFailed
  else if b.state = .closed ∧ (b.consecutiveFailures : Int) ≥ cfg.failureThreshold then
    { b with openedAt := now }.transition .opened .failureThresholdReached
  else (b, none)

end CircuitBreaker

end Ambit
