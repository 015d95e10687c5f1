import Rollout.Record.Basic
import Rollout.Text.Quoted
/-!
# Errors of the store

An edit that finds the records other than they were planned for is in conflict; every other error
is a failure of the store itself or a key without a row.
-/

namespace Rollout

/-- What an edit found that it was not planned for. -/
inductive Conflict where
  | oneProcess (process : Guid)
  | nothingToMove (process : Guid)
  | ended (deployment : Guid) (state : DeploymentState)
  | retargeted (deployment process : Guid)
  | count (process : Guid) (found expected : UInt32)
  | web (app : Guid) (found : Option Guid) (expected : Guid)
  | told (text : String)
  deriving DecidableEq, Repr

def Conflict.message : Conflict → String
  | .oneProcess p => s!"process {p} is both the web and the webish process"
  | .nothingToMove p => s!"process {p} has no instances to move"
  | .ended d s => s!"deployment {d} is {s.name}"
  | .retargeted d p => s!"deployment {d} no longer targets process {p}"
  | .count p found expected => s!"process {p} has {found.toNat} instances, expected {expected.toNat}"
  | .web a found expected =>
    s!"app {a} web process is {Text.quotedOption found}, expected {expected}"
  | .told text => text

inductive StoreError where
  | unopened (detail : String)
  | transaction (detail : String)
  | table (detail : String)
  | read (detail : String)
  | write (detail : String)
  | full (process : Guid)
  | serialize (detail : String)
  | deserialize (detail : String)
  | missing (key : Guid)
  | conflict (reason : Conflict)
  deriving DecidableEq, Repr

namespace StoreError

def message : StoreError → String
  | .unopened detail => "failed to open database: " ++ detail
  | .transaction detail => "transaction error: " ++ detail
  | .table detail => "table error: " ++ detail
  | .read detail => "read error: " ++ detail
  | .write detail => "write error: " ++ detail
  | .full process => "write error: instance count overflow on " ++ process
  | .serialize detail => "serialization error: " ++ detail
  | .deserialize detail => "deserialization error: " ++ detail
  | .missing key => "not found: " ++ key
  | .conflict reason => "conflict: " ++ reason.message

def isConflict : StoreError → Bool
  | .conflict _ => true
  | _ => false

/-- The error of a row whose bytes are no record. -/
def notARecord : StoreError := .deserialize "the row holds no record"

end StoreError
end Rollout
