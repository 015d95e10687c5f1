import Rollout.Lock.Settings
import Rollout.Lock.Error
import Rollout.Log
/-!
# Lock client

A client believes that it holds the lock while its latest attempt succeeded. A renewal loop makes
one attempt after another; when it is stopped, a lock that is held is given back and the belief
ends, whatever the service answers.
-/

namespace Rollout

/-- What the service answers to a request. -/
abbrev Grant := Except LockError Unit

structure LockClient where
  settings : LockSettings
  acquired : Bool
  running : Bool
  deriving DecidableEq, Repr

inductive LockCall where
  | lock (request : LockRequest)
  | release (request : ReleaseRequest)
  deriving DecidableEq, Repr

namespace LockClient

def ofSettings (settings : LockSettings) : LockClient := ⟨settings, false, false⟩

def isGranted : Grant → Bool
  | .ok _ => true
  | .error _ => false

/-- The attempt has been answered: the flag is its outcome. -/
def answered (c : LockClient) (grant : Grant) : LockClient :=
  { c with acquired := isGranted grant }

def attemptEvents (c : LockClient) : Grant → List Event
  | .ok _ => if c.acquired then [] else [.lockAcquired]
  | .error e =>
    (if c.acquired then [.lockLost] else []) ++
      match e with
      | .alreadyHeld _ => [.lockHeldElsewhere]
      | _ => [.lockAttemptFailed]

/-- A loop runs from now on; one that runs already goes on. -/
def started (c : LockClient) : LockClient := { c with running := true }

def startEvent (c : LockClient) : Event :=
  if c.running then .lockAlreadyRunning else .lockStarted

/-- The loop has ended and the lock, if it was held, is to be given back. -/
def stopped (c : LockClient) : LockClient := { c with acquired := false, running := false }

/-- The request that gives the lock back, due when the loop has ended with the flag set. -/
def release? (c : LockClient) : Option ReleaseRequest :=
  if c.acquired then some c.settings.releaseRequest else none

def releaseEvent : Grant → Event
  | .ok _ => .lockReleased
  | .error _ => .lockReleaseFailed

/-- Whether guarded work may run now. -/
def admits (c : LockClient) : Bool := c.acquired

end LockClient
end Rollout
