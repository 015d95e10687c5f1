import Rollout.Edit.Transaction
/-!
# Edits of a rollout

Three edits move a deployment forward: a step moves one instance from the old process to the new
one, retirement takes the last old instance away, and cut-over makes the new process the web
process of its app. Each checks, inside its transaction, that the records still are as planned.
-/

namespace Rollout

/-- The deployment and the two processes that an edit is about. -/
structure Plan where
  deployment : Guid
  old : Guid
  new : Guid
  deriving DecidableEq, Repr

/-- What an edit changed, counted in words of 32 bits. -/
inductive Change where
  | stepped (old new : UInt32)
  | retired (stopped : UInt32)
  | cutOver (routesMoved restarted : UInt32)
  deriving DecidableEq, Repr

namespace Plan

/-- The old and the new process must be two processes. -/
def distinct (plan : Plan) : Transaction Unit :=
  Transaction.expect (plan.old ≠ plan.new) (.oneProcess plan.old)

/-- The deployment, which must be under way and bound for the new process. -/
def underWay (plan : Plan) : Transaction Deployment := do
  let d ← Transaction.require Deployment plan.deployment
  Transaction.expect (!d.state.isTerminal) (.ended plan.deployment d.state)
  Transaction.expect (d.webish = some plan.new) (.retargeted plan.deployment plan.new)
  return d

end Plan

/-- The process must have the planned number of instances. -/
def AppProcess.expectCount (p : AppProcess) (expected : UInt32) : Transaction Unit :=
  Transaction.expect (p.instances = expected) (.count p.guid p.instances expected)

namespace Plan

/-- One instance moves from the old process to the new one. -/
def step (plan : Plan) (expectedOld expectedNew : UInt32) (now : Time) : Transaction Change := do
  plan.distinct
  Transaction.expect (expectedOld ≠ 0) (.nothingToMove plan.old)
  let _ ← plan.underWay
  let old ← Transaction.require AppProcess plan.old
  let new ← Transaction.require AppProcess plan.new
  old.expectCount expectedOld
  new.expectCount expectedNew
  if new.instances.toNat + 1 < UInt32.size then
    let old := { old with instances := old.instances - 1, updatedAt := now }
    let new := { new with instances := new.instances + 1, updatedAt := now }
    Transaction.put old
    Transaction.put new
    return .stepped old.instances new.instances
  else throw (.full new.guid)

/-- Whether the process is a started one of the app, and neither the old nor the new one. -/
def isSibling (plan : Plan) (app : Guid) (p : AppProcess) : Bool :=
  p.app = app && p.guid ≠ plan.old && p.guid ≠ plan.new && p.state = .started

def stopped (now : Time) (p : AppProcess) : AppProcess :=
  { p with state := .stopped, updatedAt := now }

/-- The last old instance goes away. On request every other started process of the app is stopped
with it, and the deployment remembers which, in the order of their keys. -/
def retire (plan : Plan) (stopOthers : Bool) (now : Time) : Transaction Change := do
  plan.distinct
  let d ← plan.underWay
  let old ← Transaction.require AppProcess plan.old
  old.expectCount 1
  Transaction.put { old with instances := 0, updatedAt := now }
  if stopOthers then
    let siblings ← Transaction.select (plan.isSibling d.app)
    siblings.forM fun p => Transaction.put (stopped now p)
    Transaction.put { d with stopped := d.stopped ++ siblings.map AppProcess.guid, updatedAt := now }
    return .retired (.ofNat siblings.length)
  else return .retired 0

/-- Starts the processes under these keys that are stopped and counts them; keys without a process
are passed over. -/
def restart (now : Time) : List Guid → Transaction UInt32
  | [] => return 0
  | g :: rest => do
    match ← Transaction.lookup AppProcess g with
    | none => restart now rest
    | some p =>
      if p.state = .stopped then
        Transaction.put { p with state := .started, updatedAt := now }
        return (← restart now rest) + 1
      else restart now rest

/-- The old process is deleted and the new one becomes the web process: the app and the routes
follow it, the processes that the deployment stopped are started again, and the deployment is
over. -/
def cutOver (plan : Plan) (now : Time) : Transaction Change := do
  plan.distinct
  let d ← plan.underWay
  let app ← Transaction.require App d.app
  Transaction.expect (app.web = some plan.old) (.web app.guid app.web plan.old)
  let old ← Transaction.require AppProcess plan.old
  old.expectCount 0
  let new ← Transaction.require AppProcess plan.new
  Transaction.drop AppProcess plan.old
  Transaction.put { new with kind := webKind, updatedAt := now }
  Transaction.put { app with web := some new.guid, updatedAt := now }
  let routes ← Transaction.select fun r : Route => r.process = plan.old
  routes.forM fun r => Transaction.put { r with process := new.guid }
  let restarted ← restart now d.stopped
  Transaction.put
    { d with state := .deployed, webish := none, stopped := [], updatedAt := now }
  return .cutOver (.ofNat routes.length) restarted

end Plan

/-- The three edits, with what each expects of the records. -/
inductive Edit where
  | step (expectedOld expectedNew : UInt32)
  | retire (stopOthers : Bool)
  | cutOver
  deriving DecidableEq, Repr

namespace Edit

def transaction (plan : Plan) (now : Time) : Edit → Transaction Change
  | .step expectedOld expectedNew => plan.step expectedOld expectedNew now
  | .retire stopOthers => plan.retire stopOthers now
  | .cutOver => plan.cutOver now

/-- Applies the edit; a failed one leaves the store as it is. -/
def apply (e : Edit) (plan : Plan) (now : Time) (s : Store) : Except StoreError Change × Store :=
  s.commit (e.transaction plan now)

end Edit

/-- A call of one of the three edits, with any plan. -/
structure Call where
  edit : Edit
  plan : Plan
  now : Time

namespace Call

def run (call : Call) (s : Store) : Except StoreError Change × Store :=
  call.edit.apply call.plan call.now s

/-- The store after these calls, each of which may succeed or fail. -/
def after (calls : List Call) (s : Store) : Store := calls.foldl (fun s call => (call.run s).2) s

end Call
end Rollout
