import Rollout.Instance
/-!
# Readiness

What a reporter answers when it is asked for the instances of a process, and the verdict on it: a
process is ready when every instance in the answer is running, also when there is none.
-/

namespace Rollout

inductive ReporterError where
  | unavailable (text : String)
  | invalidResponse (text : String)
  | invalidUrl (text : String)
  deriving DecidableEq, Repr

namespace ReporterError

/-- What went wrong, without the kind of error. -/
def text : ReporterError → String
  | .unavailable t | .invalidResponse t | .invalidUrl t => t

def message : ReporterError → String
  | .unavailable t => "instances unavailable: " ++ t
  | .invalidResponse t => "invalid instances response: " ++ t
  | .invalidUrl t => "invalid instances reporter url: " ++ t

end ReporterError

abbrev Answer := Except ReporterError Instances

inductive Readiness where
  | ready
  | unavailable (text : String)
  | notRunning (running total : Nat)
  deriving DecidableEq, Repr

def Readiness.ofAnswer : Answer → Readiness
  | .error e => .unavailable e.text
  | .ok instances =>
    if instances.running = instances.size then .ready
    else .notRunning instances.running instances.size

end Rollout
