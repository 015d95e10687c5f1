/-!
# Records

An app runs processes, one of which is its web process; a deployment replaces that process by
another one, its webish process, instance by instance; a route mapping says which process serves a
route. Times are seconds since the epoch.
-/

namespace Rollout

abbrev Guid := String

abbrev Time := UInt64

structure App where
  guid : Guid
  name : String
  web : Option Guid
  createdAt : Time
  updatedAt : Time
  deriving DecidableEq, Repr

inductive ProcessState where
  | started
  | stopped
  deriving DecidableEq, Repr

structure AppProcess where
  guid : Guid
  app : Guid
  kind : String
  instances : UInt32
  state : ProcessState
  createdAt : Time
  updatedAt : Time
  deriving DecidableEq, Repr

inductive DeploymentState where
  | deploying
  | deployed
  | canceled
  deriving DecidableEq, Repr

namespace DeploymentState

/-- Whether the deployment is over. -/
def isTerminal (s : DeploymentState) : Bool := s ≠ .deploying

def name : DeploymentState → String
  | .deploying => "DEPLOYING"
  | .deployed => "DEPLOYED"
  | .canceled => "CANCELED"

end DeploymentState

/-- A deployment remembers the processes that it stopped, to start them again at its end. -/
structure Deployment where
  guid : Guid
  app : Guid
  state : DeploymentState
  droplet : Option String
  webish : Option Guid
  stopped : List Guid
  createdAt : Time
  updatedAt : Time
  deriving DecidableEq, Repr

structure Route where
  guid : Guid
  app : Guid
  process : Guid
  url : String
  deriving DecidableEq, Repr

/-- The kind of an app's web process. -/
def webKind : String := "web"

namespace App

def create (guid : Guid) (name : String) (web : Option Guid) (now : Time) : App :=
  ⟨guid, name, web, now, now⟩

end App

namespace AppProcess

def create (guid app : Guid) (kind : String) (instances : UInt32) (now : Time) : AppProcess :=
  ⟨guid, app, kind, instances, .started, now, now⟩

end AppProcess

namespace Deployment

def create (guid app webish : Guid) (now : Time) : Deployment :=
  ⟨guid, app, .deploying, none, some webish, [], now, now⟩

end Deployment
end Rollout
