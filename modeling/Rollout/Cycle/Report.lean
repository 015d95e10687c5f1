import Rollout.Cycle.Outcome
/-!
# Reports

The report of a cycle has one entry for each deployment, in the order in which they were taken up.
-/

namespace Rollout

/-- The result for one deployment, and the process whose instances were asked for on its way. -/
structure Entry where
  deployment : Guid
  asked : Option AppProcess
  result : Result

abbrev Report := List Entry

namespace Report

/-- The result for a deployment: of entries with its key the first. -/
def get? (r : Report) (deployment : Guid) : Option Result :=
  (r.find? (·.deployment = deployment)).map Entry.result

def isProgress : Result → Bool
  | .ok o => o.progressed
  | .error _ => false

def isSkip : Result → Bool
  | .ok o => !o.progressed
  | .error _ => false

def isFailure : Result → Bool
  | .ok _ => false
  | .error _ => true

def progressed (r : Report) : Nat := r.countP (isProgress ·.result)

def skipped (r : Report) : Nat := r.countP (isSkip ·.result)

def failed (r : Report) : Nat := r.countP (isFailure ·.result)

end Report
end Rollout
