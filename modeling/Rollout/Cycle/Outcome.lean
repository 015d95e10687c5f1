import Rollout.Edit
import Rollout.Readiness
/-!
# Outcomes

What became of one deployment in a cycle: it moved, it was skipped for a reason that may pass, or
its records are in error.
-/

namespace Rollout

inductive SkipReason where
  | unavailable (text : String)
  | notRunning (running total : Nat)
  | conflict (reason : Conflict)
  deriving DecidableEq, Repr

inductive Outcome where
  | moved (change : Change)
  | skipped (reason : SkipReason)
  deriving DecidableEq, Repr

def Outcome.progressed : Outcome → Bool
  | .moved _ => true
  | .skipped _ => false

inductive UpdateError where
  | store (e : StoreError)
  | missingApp (app : Guid)
  | missingWeb (app : Guid)
  | missingProcess (process : Guid)
  | missingWebish (deployment : Guid)
  | webishIsWeb (deployment process : Guid)
  deriving DecidableEq, Repr

def UpdateError.message : UpdateError → String
  | .store e => "state store error: " ++ e.message
  | .missingApp app => "app not found: " ++ app
  | .missingWeb app => s!"app {app} has no web process"
  | .missingProcess process => "process not found: " ++ process
  | .missingWebish deployment => s!"deployment {deployment} has no webish process"
  | .webishIsWeb deployment process =>
    s!"deployment {deployment} targets the app's current web process {process}"

abbrev Result := Except UpdateError Outcome

end Rollout
