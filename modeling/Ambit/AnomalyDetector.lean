import Ambit.Values
import Ambit.Lib.OrderedMap

/-! `anomalyDetector.ts`: scope breadth and request velocity of one subject. -/

namespace Ambit

structure AnomalyDetectorConfig where
  maxScopeBreadth : JsNumber
  velocityWindowMs : JsNumber
  maxRequestsPerWindow : JsNumber

structure AnomalyResult where
  anomalous : Bool
  signals : List String

structure AnomalyDetector where
  recentBySubject : OrderedMap String (List Int)

namespace AnomalyDetector

def check (cfg : AnomalyDetectorConfig) (detector : AnomalyDetector) (subject : String)
    (scope : List String) (now : Int) : AnomalyResult × AnomalyDetector :=
  let broad := if cfg.maxScopeBreadth.lt (.finite scope.length) then ["scope_too_broad"] else []
  let recent := ((detector.recentBySubject.get subject).getD []).filter
    (fun t => (JsNumber.finite (now - t : Int)).lt cfg.velocityWindowMs) ++ [now]
  let fast := if cfg.maxRequestsPerWindow.lt (.finite recent.length) then ["high_velocity"] else []
  let signals := broad ++ fast
  ({ anomalous := signals.length > 0, signals },
    ⟨detector.recentBySubject.set subject recent⟩)

end AnomalyDetector

end Ambit
