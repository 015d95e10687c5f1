/-!
# Log

The events that a run leaves in its log, each with a level and a fixed text.
-/

namespace Rollout

inductive Level where
  | debug
  | info
  | warn
  | error
  deriving DecidableEq, Repr

def Level.name : Level → String
  | .debug => "DEBUG"
  | .info => "INFO"
  | .warn => "WARN"
  | .error => "ERROR"

inductive Event where
  | storeOpened
  | memoryStoreOpened
  | recordStored
  | recordDeleted
  | stepCommitted
  | retirementCommitted
  | cutOverCommitted
  | cycleStarted
  | instancesUnavailable
  | instancesNotRunning
  | changedUnderneath
  | deploymentHeld
  | deploymentMoved
  | deploymentFailed
  | cycleFinished
  | cycleFailed
  | cycleNotAdmitted
  | schedulerStarted
  | schedulerStopping
  | lockStarted
  | lockAlreadyRunning
  | lockAcquired
  | lockLost
  | lockHeldElsewhere
  | lockAttemptFailed
  | renewalStopping
  | lockReleased
  | lockReleaseFailed
  | lockStopped
  | configAccepted
  | daemonStopped
  deriving DecidableEq, Repr

namespace Event

def level : Event → Level
  | .cycleStarted | .instancesUnavailable | .deploymentMoved | .schedulerStarted
  | .schedulerStopping | .lockStarted | .lockAcquired | .lockReleased | .lockStopped
  | .configAccepted | .daemonStopped => .info
  | .changedUnderneath | .lockLost | .lockReleaseFailed => .warn
  | .deploymentFailed | .cycleFailed => .error
  | _ => .debug

def message : Event → String
  | .storeOpened => "state store opened"
  | .memoryStoreOpened => "in-memory state store opened"
  | .recordStored => "record stored"
  | .recordDeleted => "record deleted"
  | .stepCommitted => "scale step committed"
  | .retirementCommitted => "last old instance retired"
  | .cutOverCommitted => "cutover committed"
  | .cycleStarted => "running deployment update"
  | .instancesUnavailable => "skipping deployment update"
  | .instancesNotRunning => "webish instances not all running"
  | .changedUnderneath => "deployment changed underneath update, skipping"
  | .deploymentHeld => "deployment held"
  | .deploymentMoved => "ran deployment update"
  | .deploymentFailed => "deployment update failed"
  | .cycleFinished => "deployment update finished"
  | .cycleFailed => "deployment update cycle failed"
  | .cycleNotAdmitted => "deployment updater lock not held, skipping cycle"
  | .schedulerStarted => "deployment scheduler started"
  | .schedulerStopping => "deployment scheduler shutting down"
  | .lockStarted => "lock client started"
  | .lockAlreadyRunning => "lock client already running"
  | .lockAcquired => "lock acquired"
  | .lockLost => "lock lost"
  | .lockHeldElsewhere => "lock held by another owner"
  | .lockAttemptFailed => "lock attempt failed"
  | .renewalStopping => "lock renewal loop shutting down"
  | .lockReleased => "lock released"
  | .lockReleaseFailed => "lock release failed"
  | .lockStopped => "lock client stopped"
  | .configAccepted => "config ok"
  | .daemonStopped => "deployd stopped"

def line (e : Event) : String := e.level.name ++ " " ++ e.message

end Event
end Rollout
