import Rollout.File
import Rollout.Cycle.Basic
import Rollout.Lock.Client
/-!
# Scripts

A rehearsal follows a script: steps on the store, on the services it pretends to have, on the lock
client and on the scheduler, each with a reply.
-/

namespace Rollout.Rehearsal

/-- A record of any kind. -/
inductive AnyRecord where
  | app (r : App)
  | process (r : AppProcess)
  | deployment (r : Deployment)
  | route (r : Route)

/-- A record to be made at the time of the step. -/
inductive Draft where
  | app (guid : Guid) (name : String) (web : Option Guid)
  | process (guid app : Guid) (kind : String) (instances : UInt32)
  | deployment (guid app webish : Guid)
  | route (guid app process : Guid) (url : String)

inductive StoreStep where
  | put (r : AnyRecord)
  | malformed
  | make (draft : Draft)
  | getApp (guid : Guid)
  | getProcess (guid : Guid)
  | getDeployment (guid : Guid)
  | deleteProcess (guid : Guid)
  | deploymentsIn (state : DeploymentState)
  | routesOf (process : Guid)
  | edit (e : Edit) (plan : Plan)
  | dump (apps processes deployments served : List Guid)

/-- What was found under each key that a dump asks for. -/
structure Dump where
  apps : List (Except StoreError (Option App))
  processes : List (Except StoreError (Option AppProcess))
  deployments : List (Except StoreError (Option Deployment))
  routes : List (Except StoreError (List Route))

/-- What the reporter is made to say about a process, after a delay. -/
inductive Say where
  | instances (m : Instances)
  | all (state : InstanceState)
  | failure (e : ReporterError)

structure Delayed (α : Type) where
  value : α
  delay : Nat

inductive Step where
  | store (s : StoreStep)
  | reopen
  | secondOpen
  | options (stopOthers : Bool)
  | reporter (process : Guid) (answer : Delayed Say)
  | race (process : Guid) (steps : List StoreStep)
  | update (get : List Guid)
  | runOnce (gated : Bool)
  | startScheduler (interval : Nat) (gated : Bool)
  | stopScheduler
  | advance (millis : Nat)
  | newLock (settings : LockSettings)
  | scriptLock (grants releases : List (Delayed Grant))
  | lockAcquired
  | tryAcquire
  | withLock
  | startLock
  | stopLock

inductive Reply where
  | done
  | flag (b : Bool)
  | malformed
  | app (r : Option App)
  | process (r : Option AppProcess)
  | deployment (r : Option Deployment)
  | route (r : Route)
  | deployments (rs : List Deployment)
  | routes (rs : List Route)
  | changed (c : Change)
  | dump (d : Dump)
  | settings (s : LockSettings)
  | body (ran : Bool)
  | report (r : Option Report) (get : List Guid)
  | failed (e : StoreError)
  | updateFailed (e : UpdateError)

namespace Draft

def record (now : Time) : Draft → AnyRecord
  | .app guid name web => .app (.create guid name web now)
  | .process guid owner kind instances => .process (.create guid owner kind instances now)
  | .deployment guid owner webish => .deployment (.create guid owner webish now)
  | .route guid owner target url => .route ⟨guid, owner, target, url⟩

end Draft

namespace AnyRecord

def put (s : Store) : AnyRecord → Store
  | .app r => s.put r
  | .process r => s.put r
  | .deployment r => s.put r
  | .route r => s.put r

def reply : AnyRecord → Reply
  | .app r => .app (some r)
  | .process r => .process (some r)
  | .deployment r => .deployment (some r)
  | .route r => .route r

end AnyRecord

def replyOf {α : Type} (reply : α → Reply) : Except StoreError α → Reply
  | .ok a => reply a
  | .error e => .failed e

def editEvents : Except StoreError Change → List Event
  | .ok (.stepped _ _) => [.stepCommitted]
  | .ok (.retired _) => [.retirementCommitted]
  | .ok (.cutOver _ _) => [.cutOverCommitted]
  | .error _ => []

namespace Dump

def ofStore (s : Store) (apps processes deployments served : List Guid) : Dump where
  apps := apps.map (s.get? App)
  processes := processes.map (s.get? AppProcess)
  deployments := deployments.map (s.get? Deployment)
  routes := served.map s.routesOf

end Dump

namespace StoreStep

/-- The reply to a step on the store, what it leaves in the log, and the store after it. -/
def run (now : Time) (s : Store) : StoreStep → Reply × List Event × Store
  | .put r => (.done, [.recordStored], r.put s)
  | .malformed => (.malformed, [], s)
  | .make draft =>
    let r := draft.record now
    (r.reply, [.recordStored], r.put s)
  | .getApp guid => (replyOf .app (s.get? App guid), [], s)
  | .getProcess guid => (replyOf .process (s.get? AppProcess guid), [], s)
  | .getDeployment guid => (replyOf .deployment (s.get? Deployment guid), [], s)
  | .deleteProcess guid =>
    let (existed, s) := s.delete AppProcess guid
    (.flag existed, [.recordDeleted], s)
  | .deploymentsIn state => (replyOf .deployments (s.deploymentsIn state), [], s)
  | .routesOf process => (replyOf .routes (s.routesOf process), [], s)
  | .edit e plan =>
    let (r, s) := e.apply plan now s
    (replyOf .changed r, editEvents r, s)
  | .dump apps processes deployments served =>
    (.dump (.ofStore s apps processes deployments served), [], s)

/-- Runs steps one after another. -/
def runAll (now : Time) (s : Store) : List StoreStep → List Reply × List Event × Store
  | [] => ([], [], s)
  | step :: rest =>
    let (reply, events, s) := step.run now s
    let (replies, more, s) := runAll now s rest
    (reply :: replies, events ++ more, s)

end StoreStep
end Rollout.Rehearsal
