import Rollout.Edit
import Rollout.Proofs.Transaction

/-!
# What a successful edit does

Seen from the records, an edit either fails and changes nothing or does what one of the rules here
says. A rule lists all that its edit asks of the records, and the records that it leaves.
-/

namespace Rollout
namespace Plan

variable (plan : Plan) (now : Time)

/-- What every edit asks: two processes, and a deployment under way from the one to the other. -/
structure Current (v : Records) (d : Deployment) (old : AppProcess) : Prop where
  distinct : plan.old ≠ plan.new
  deployment : v.deployment plan.deployment = some d
  deploying : d.state = .deploying
  webish : d.webish = some plan.new
  old : v.process plan.old = some old

theorem isSibling_iff {app : Guid} {p : AppProcess} : plan.isSibling app p = true ↔
    p.app = app ∧ p.guid ≠ plan.old ∧ p.guid ≠ plan.new ∧ p.state = .started := by
  simp only [isSibling, Bool.and_eq_true, decide_eq_true_eq, and_assoc]

/-- A process, stopped if it is one that a retirement stops. -/
def stopSibling (app : Guid) (p : AppProcess) : AppProcess :=
  if plan.isSibling app p then stopped now p else p

/-- A process, started if it is a stopped one under one of these keys. -/
def startAgain (keys : List Guid) (p : AppProcess) : AppProcess :=
  if p.guid ∈ keys ∧ p.state = .stopped then { p with state := .started, updatedAt := now } else p

/-- A route, moved to the new process if it led to the old one. -/
def follow (r : Route) : Route :=
  if r.process = plan.old then { r with process := plan.new } else r

def afterStep (old new : AppProcess) (v : Records) : Records :=
  let lost := { old with instances := old.instances - 1, updatedAt := now }
  let won := { new with instances := new.instances + 1, updatedAt := now }
  { v with
    process := Function.update (Function.update v.process plan.old (some lost)) plan.new (some won) }

def afterRetirement (old : AppProcess) (v : Records) : Records :=
  let emptied := { old with instances := 0, updatedAt := now }
  { v with process := Function.update v.process plan.old (some emptied) }

/-- A retirement that stops the other processes of the app leaves these records. -/
def afterLoneRetirement (d : Deployment) (old : AppProcess) (siblings : List AppProcess)
    (v : Records) : Records :=
  { v with
    process := fun key =>
      ((plan.afterRetirement now old v).process key).map (plan.stopSibling now d.app)
    deployment := Function.update v.deployment plan.deployment
      (some { d with stopped := d.stopped ++ siblings.map AppProcess.guid, updatedAt := now }) }

def afterCutOver (d : Deployment) (app : App) (new : AppProcess) (v : Records) : Records where
  app := Function.update v.app d.app (some { app with web := some plan.new, updatedAt := now })
  process := fun key =>
    (Function.update (Function.update v.process plan.old none)
      plan.new (some { new with kind := webKind, updatedAt := now }) key).map
      (startAgain now d.stopped)
  deployment := Function.update v.deployment plan.deployment
    (some { d with state := .deployed, webish := none, stopped := [], updatedAt := now })
  route := fun key => (v.route key).map plan.follow

section Tables

variable {plan : Plan} {now : Time} {d : Deployment} {app : App} {old new : AppProcess}
  {siblings : List AppProcess} {v : Records}

@[simp] theorem deployment_afterLoneRetirement :
    (plan.afterLoneRetirement now d old siblings v).deployment =
      Function.update v.deployment plan.deployment
        (some { d with stopped := d.stopped ++ siblings.map AppProcess.guid, updatedAt := now }) :=
  rfl

@[simp] theorem app_afterCutOver : (plan.afterCutOver now d app new v).app =
    Function.update v.app d.app (some { app with web := some plan.new, updatedAt := now }) :=
  rfl

@[simp] theorem deployment_afterCutOver : (plan.afterCutOver now d app new v).deployment =
    Function.update v.deployment plan.deployment
      (some { d with state := .deployed, webish := none, stopped := [], updatedAt := now }) :=
  rfl

@[simp] theorem route_afterCutOver : (plan.afterCutOver now d app new v).route =
    fun key => (v.route key).map plan.follow :=
  rfl

end Tables
end Plan

/-- What an edit asks of the records to succeed, the change it reports and the records after it. -/
inductive Edit.Effect (plan : Plan) (now : Time) (v : Records) : Edit → Change → Records → Prop where
  | step {d : Deployment} {old new : AppProcess} (current : plan.Current v d old)
      (target : v.process plan.new = some new) (some_left : old.instances ≠ 0)
      (room : new.instances.toNat + 1 < UInt32.size) :
      Effect plan now v (.step old.instances new.instances)
        (.stepped (old.instances - 1) (new.instances + 1)) (plan.afterStep now old new v)
  | retire {d : Deployment} {old : AppProcess} (current : plan.Current v d old)
      (last : old.instances = 1) :
      Effect plan now v (.retire false) (.retired 0) (plan.afterRetirement now old v)
  | retireAlone {d : Deployment} {old : AppProcess} {siblings : List AppProcess}
      (current : plan.Current v d old) (last : old.instances = 1)
      (sorted : (siblings.map AppProcess.guid).Pairwise (· < ·))
      (mem_siblings : ∀ p, p ∈ siblings ↔
        v.process p.guid = some p ∧ plan.isSibling d.app p = true) :
      Effect plan now v (.retire true) (.retired (.ofNat siblings.length))
        (plan.afterLoneRetirement now d old siblings v)
  | cutOver {d : Deployment} {app : App} {old new : AppProcess} {routes : List Route}
      {restarted : List Guid} (current : plan.Current v d old) (owner : v.app d.app = some app)
      (web : app.web = some plan.old) (none_left : old.instances = 0)
      (target : v.process plan.new = some new)
      (routes_sorted : (routes.map Route.guid).Pairwise (· < ·))
      (mem_routes : ∀ r, r ∈ routes ↔ v.route r.guid = some r ∧ r.process = plan.old)
      (restarted_nodup : restarted.Nodup)
      (mem_restarted : ∀ key, key ∈ restarted ↔
        key ∈ d.stopped ∧ key ≠ plan.old ∧ ∃ p, v.process key = some p ∧ p.state = .stopped) :
      Effect plan now v .cutOver (.cutOver (.ofNat routes.length) (.ofNat restarted.length))
        (plan.afterCutOver now d app new v)

section Preconditions

open Transaction

variable {plan : Plan} {s s' : Store}

theorem Plan.distinct_ok {u : Unit} :
    plan.distinct s = (.ok u, s') ↔ plan.old ≠ plan.new ∧ s = s' := by
  rw [Plan.distinct, expect_ok, decide_eq_true_iff]

theorem Plan.underWay_ok (hs : s.Keyed) {d : Deployment} :
    plan.underWay s = (.ok d, s') ↔
      s.records.deployment plan.deployment = some d ∧ d.state = .deploying ∧
        d.webish = some plan.new ∧ s = s' := by
  simp only [Plan.underWay, bind_ok, require_ok hs, expect_ok, pure_ok, Store.record_deployment]
  simp [DeploymentState.isTerminal]

theorem Plan.failsInConflict_underWay (hs : s.Keyed) {d : Deployment}
    (hd : s.records.deployment plan.deployment = some d) : FailsInConflict plan.underWay s := by
  apply FailsInConflict.bind (failsInConflict_require hs hd)
  intro found _ _
  apply FailsInConflict.bind (failsInConflict_expect _ _)
  intro _ _ _
  apply FailsInConflict.bind (failsInConflict_expect _ _)
  intro _ _ _
  exact failsInConflict_pure found

theorem AppProcess.expectCount_ok {p : AppProcess} {expected : UInt32} {u : Unit} :
    p.expectCount expected s = (.ok u, s') ↔ p.instances = expected ∧ s = s' := by
  rw [AppProcess.expectCount, expect_ok, decide_eq_true_iff]

end Preconditions
end Rollout
