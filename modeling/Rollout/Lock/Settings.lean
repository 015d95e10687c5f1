import Rollout.Duration
import Rollout.Lock.Message
/-!
# Lock settings

Where the lock service listens and which files hold the credentials for it, which lock a replica
contends for, under what name, how long a grant lasts and how often it is renewed.
-/

namespace Rollout

structure Locket where
  host : String
  port : UInt16
  caFile : String
  certFile : String
  keyFile : String
  deriving DecidableEq, Repr

namespace Locket

/-- The URI of an endpoint on a host, which is taken as it is written. -/
def uriOf (host : String) (port : Nat) : String := s!"https://{host}:{port}"

def uri (l : Locket) : String := uriOf l.host l.port.toNat

end Locket

structure LockSettings where
  key : String
  owner : String
  ttl : Duration
  retry : Duration
  deriving DecidableEq, Repr

namespace LockSettings

/-- The settings of an owner who has chosen nothing else. -/
def ofOwner (owner : String) : LockSettings :=
  ⟨"cc-deployment-updater", owner, .ofSecs 15, .ofSecs 1⟩

def resource (s : LockSettings) : Resource := ⟨s.key, s.owner, "", ResourceKind.lock.number⟩

/-- The request for a grant; more seconds than the message can hold are cut to its largest. -/
def lockRequest (s : LockSettings) : LockRequest :=
  ⟨some s.resource, Int64.ofNat (min s.ttl.secs.toNat Int64.maxValue.toNatClampNeg)⟩

def releaseRequest (s : LockSettings) : ReleaseRequest := ⟨some s.resource⟩

end LockSettings
end Rollout
