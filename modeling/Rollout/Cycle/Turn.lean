import Rollout.Cycle.Outcome
import Rollout.Log
/-!
# Turns

A turn takes one deployment through a cycle. It reads the app, the web process and the webish
process, asks for the instances of the webish process, and commits the edit that is next for the
number of old instances. Every read and the commit are steps of their own, since other replicas
work on the same store between them.
-/

namespace Rollout

/-- The edit that is next for a number of old instances. -/
inductive Phase where
  | step
  | retire
  | cutOver
  deriving DecidableEq, Repr

def Phase.ofOldInstances (n : UInt32) : Phase :=
  if n = 0 then .cutOver else if n = 1 then .retire else .step

/-- The two processes of a rollout, as they were read. -/
structure Pair where
  old : AppProcess
  new : AppProcess
  deriving DecidableEq, Repr

namespace Pair

def plan (pair : Pair) (d : Deployment) : Plan := ⟨d.guid, pair.old.guid, pair.new.guid⟩

def phase (pair : Pair) : Phase := .ofOldInstances pair.old.instances

def edit (pair : Pair) (stopOthers : Bool) : Edit :=
  match pair.phase with
  | .step => .step pair.old.instances pair.new.instances
  | .retire => .retire stopOthers
  | .cutOver => .cutOver

end Pair

/-- Where a turn stands: what it does next, with what it has read. -/
inductive Turn where
  | readApp
  | readOld (web : Guid)
  | readNew (old : AppProcess) (webish : Guid)
  | ask (pair : Pair)
  | commit (pair : Pair)
  | ended (result : Result)

namespace Turn

def required {α : Type} (missing : UpdateError) : Except StoreError (Option α) →
    Except UpdateError α
  | .ok (some a) => .ok a
  | .ok none => .error missing
  | .error e => .error (.store e)

/-- The web process of the deployment's app. -/
def webOf (s : Store) (d : Deployment) : Except UpdateError Guid := do
  let app ← required (.missingApp d.app) (s.get? App d.app)
  match app.web with
  | some web => return web
  | none => throw (.missingWeb app.guid)

def processAt (s : Store) (key : Guid) : Except UpdateError AppProcess :=
  required (.missingProcess key) (s.get? AppProcess key)

/-- The webish process of the deployment, which must not be the old process. -/
def webishOf (d : Deployment) (old : AppProcess) : Except UpdateError Guid :=
  match d.webish with
  | none => .error (.missingWebish d.guid)
  | some webish =>
    if webish = old.guid then .error (.webishIsWeb d.guid webish) else .ok webish

/-- Both processes, read from one store. -/
def pairOf (s : Store) (d : Deployment) : Except UpdateError Pair := do
  let web ← webOf s d
  let old ← processAt s web
  let webish ← webishOf d old
  let new ← processAt s webish
  return ⟨old, new⟩

/-- What the answer of the reporter decides: to go on, or to hold the deployment. -/
def verdict (pair : Pair) (answer : Answer) : Turn :=
  match Readiness.ofAnswer answer with
  | .ready => .commit pair
  | .unavailable text => .ended (.ok (.skipped (.unavailable text)))
  | .notRunning running total => .ended (.ok (.skipped (.notRunning running total)))

/-- A conflict is a reason to skip, any other error of the store fails the turn. -/
def ofCommit : Except StoreError Change → Result
  | .ok change => .ok (.moved change)
  | .error (.conflict reason) => .ok (.skipped (.conflict reason))
  | .error e => .error (.store e)

def conclude (stopOthers : Bool) (now : Time) (d : Deployment) (pair : Pair) (s : Store) :
    Result × Store :=
  let (r, s) := (pair.edit stopOthers).apply (pair.plan d) now s
  (ofCommit r, s)

def continueWith {α : Type} (next : α → Turn) : Except UpdateError α → Turn
  | .ok a => next a
  | .error e => .ended (.error e)

/-- One step of a turn. The answer is used by the step that asks and by no other. -/
def step (stopOthers : Bool) (now : Time) (d : Deployment) (answer : Answer) :
    Turn → Store → Turn × Store
  | .readApp, s => (continueWith .readOld (webOf s d), s)
  | .readOld web, s =>
    (continueWith (fun old => continueWith (.readNew old) (webishOf d old)) (processAt s web), s)
  | .readNew old webish, s => (continueWith (fun new => .ask ⟨old, new⟩) (processAt s webish), s)
  | .ask pair, s => (verdict pair answer, s)
  | .commit pair, s =>
    let (r, s) := conclude stopOthers now d pair s
    (.ended r, s)
  | .ended r, s => (.ended r, s)

/-- The process that a step of a turn asks the reporter about. -/
def question : Turn → Option AppProcess
  | .ask pair => some pair.new
  | _ => none

/-- What a step hears; only the one that asks hears the reporter. -/
def heard (reporter : AppProcess → Answer) (turn : Turn) : Answer :=
  (turn.question.map reporter).getD (.ok ∅)

/-- What a step leaves in the log, told from where the turn stood and where it stands. -/
def events : Turn → Turn → List Event
  | .ask _, .ended (.ok (.skipped (.unavailable _))) => [.instancesUnavailable]
  | .ask _, .ended (.ok (.skipped (.notRunning _ _))) => [.instancesNotRunning]
  | .commit _, .ended (.ok (.moved (.stepped _ _))) => [.stepCommitted]
  | .commit _, .ended (.ok (.moved (.retired _))) => [.retirementCommitted]
  | .commit _, .ended (.ok (.moved (.cutOver _ _))) => [.cutOverCommitted]
  | .commit _, .ended (.ok (.skipped (.conflict _))) => [.changedUnderneath]
  | _, _ => []

/-- What the end of a turn leaves in the log. -/
def closing : Result → Event
  | .ok (.moved _) => .deploymentMoved
  | .ok (.skipped _) => .deploymentHeld
  | .error _ => .deploymentFailed

end Turn
end Rollout
