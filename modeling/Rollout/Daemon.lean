import Rollout.Backend
import Rollout.Config.Reading
import Rollout.Cycle.Basic
import Rollout.Lock.Client
import Rollout.Lock.Service
/-!
# Daemon

A daemon makes its data directory, opens its store there, and prepares its reporter and, if it is
configured, its lock client, in this order. The first step that fails ends it; a step before is not
undone. Once it runs it makes a cycle whenever its interval is over and its lock admits one.
-/

namespace Rollout

/-- What a daemon finds where it is started. -/
structure Site where
  files : String → FileState
  stores : String → StoreFile

namespace Site

/-- The path up to each of its separators, and the whole path. -/
def stages : List Char → List Char → List (List Char)
  | before, [] => [before.reverse]
  | before, c :: rest =>
    if c = '/' then before.reverse :: stages (c :: before) rest else stages (c :: before) rest

/-- Whether a directory is there or can be made: no file stands in the way. -/
def hasRoom (site : Site) (path : String) : Bool :=
  (stages [] path.toList).all fun stage =>
    match site.files (String.ofList stage) with
    | .content _ => false
    | _ => true

end Site

inductive StartError where
  | dataDirectory (path : String)
  | store (e : StoreError)
  | reporter (e : ReporterError)
  | lock (e : LockError)
  deriving DecidableEq, Repr

def StartError.message : StartError → String
  | .dataDirectory path => "creating data dir " ++ path
  | .store e => e.message
  | .reporter e => e.message
  | .lock e => e.message

structure Daemon where
  config : Config
  store : Store
  backend : Backend
  lock : Option LockClient

namespace Daemon

def openStore (c : Config) (site : Site) : Except StartError Store :=
  if site.hasRoom c.dataDir then
    match (site.stores c.storePath).openStore with
    | .ok s => .ok s
    | .error e => .error (.store e)
  else .error (.dataDirectory c.dataDir)

def backendOf (c : Config) (detail : String) : Except StartError Backend :=
  match Backend.ofUrl c.reporter.url c.reporterTimeout with
  | .ok b => .ok b
  | .error e => .error (.reporter (e.report c.reporter.url detail))

/-- The lock client of a daemon with a lock service; its renewal loop runs at once. -/
def lockOf (c : Config) (site : Site) (detail : String) :
    Except StartError (Option LockClient) :=
  match c.locket with
  | none => .ok none
  | some l =>
    match LockService.setup l site.files with
    | .ok () => .ok (some (LockClient.ofSettings c.lockSettings).started)
    | .error e => .error (.lock (e.report detail))

/-- Starts a daemon; the detail is what the layers below report of an error. -/
def start (c : Config) (site : Site) (detail : String) : Except StartError Daemon := do
  let store ← openStore c site
  let backend ← backendOf c detail
  let lock ← lockOf c site detail
  return ⟨c, store, backend, lock⟩

/-- Whether a cycle may be made now. -/
def admits (d : Daemon) : Bool :=
  match d.lock with
  | none => true
  | some c => c.admits

/-- A cycle, or the passing over of one, with the event that ends it. The connections are those
over which the processes are asked about. -/
def cycle (d : Daemon) (now : Time) (detail : String) (connections : Guid → Connection) :
    Event × Daemon :=
  if d.admits then
    let reporter : Reporter := fun _ p => d.backend.answer p.guid detail (connections p.guid)
    let (result, store) := Cycle.update d.config.updater.stopOthers (fun _ => now) reporter d.store
    let event := match result with
      | .ok _ => .cycleFinished
      | .error _ => .cycleFailed
    (event, { d with store })
  else (.cycleNotAdmitted, d)

end Daemon
end Rollout
