import Rollout.Proofs.Companions
import Rollout.Proofs.Convergence
import Rollout.Proofs.Lockstep

/-!
# The option to stop other processes

Whether a retirement stops the other processes of the app is no matter to the rollout. Cycles with
the option and cycles without it go in step: they take up the same deployments with the same
results but for the numbers of processes stopped and started again, and leave the same records but
for run states, the processes that a deployment remembers, and times of updates.
-/

namespace Rollout

open Store Transaction

/-- A change without the numbers of processes that were stopped or started again. -/
def Change.core : Change → Change
  | .stepped old new => .stepped old new
  | .retired _ => .retired 0
  | .cutOver routesMoved _ => .cutOver routesMoved 0

namespace Plan

variable {plan : Plan} {now : Time} {s t : Store}

private theorem expectCount_eq {p q : AppProcess} (h : p.core = q.core) (expected : UInt32) :
    p.expectCount expected = q.expectCount expected := by
  obtain ⟨hguid, _, _, hinstances, _⟩ := AppProcess.core_eq_iff.mp h
  rw [AppProcess.expectCount, AppProcess.expectCount, hguid, hinstances]

private theorem inStep_underWay (h : Coincide s t) :
    InStep plan.underWay plan.underWay s t fun d d' s' t' =>
      d.core = d'.core ∧ s.records.deployment plan.deployment = some d ∧
        t.records.deployment plan.deployment = some d' ∧ s' = s ∧ t' = t := by
  apply InStep.bind (InStep.require h (h.deployment plan.deployment))
  rintro d d' _ _ ⟨hcore, hd, hd', rfl, rfl⟩
  obtain ⟨_, _, hstate, _, hwebish, _⟩ := Deployment.core_eq_iff.mp hcore
  rw [← hstate, ← hwebish]
  apply InStep.bind (InStep.expect _ _)
  rintro _ _ _ _ ⟨_, rfl, rfl⟩
  apply InStep.bind (InStep.expect _ _)
  rintro _ _ _ _ ⟨_, rfl, rfl⟩
  exact .pure ⟨hcore, hd, hd', rfl, rfl⟩

theorem inStep_step (h : Coincide s t) (expectedOld expectedNew : UInt32) :
    InStep (plan.step expectedOld expectedNew now) (plan.step expectedOld expectedNew now) s t
      fun change change' s' t' => Coincide s' t' ∧ change.core = change'.core := by
  apply InStep.bind (InStep.expect _ _)
  rintro _ _ _ _ ⟨_, rfl, rfl⟩
  apply InStep.bind (InStep.expect _ _)
  rintro _ _ _ _ ⟨_, rfl, rfl⟩
  apply InStep.bind (inStep_underWay h)
  rintro _ _ _ _ ⟨_, _, _, rfl, rfl⟩
  apply InStep.bind (InStep.require h (h.process plan.old))
  rintro old old' _ _ ⟨hold, _, _, rfl, rfl⟩
  apply InStep.bind (InStep.require h (h.process plan.new))
  rintro new new' _ _ ⟨hnew, _, _, rfl, rfl⟩
  rw [← expectCount_eq hold, ← expectCount_eq hnew]
  apply InStep.bind (InStep.expect _ _)
  rintro _ _ _ _ ⟨_, rfl, rfl⟩
  apply InStep.bind (InStep.expect _ _)
  rintro _ _ _ _ ⟨_, rfl, rfl⟩
  obtain ⟨_, _, _, holdCount, _⟩ := AppProcess.core_eq_iff.mp hold
  obtain ⟨hguid, _, _, hnewCount, _⟩ := AppProcess.core_eq_iff.mp hnew
  have hlost : AppProcess.core { old with instances := old.instances - 1, updatedAt := now } =
      AppProcess.core { old' with instances := old'.instances - 1, updatedAt := now } :=
    congrArg (fun p : AppProcess => { p with instances := p.instances - 1 }) hold
  have hwon : AppProcess.core { new with instances := new.instances + 1, updatedAt := now } =
      AppProcess.core { new' with instances := new'.instances + 1, updatedAt := now } :=
    congrArg (fun p : AppProcess => { p with instances := p.instances + 1 }) hnew
  simp only [hnewCount, hguid, holdCount] at hlost hwon ⊢
  split
  · apply InStep.bind InStep.put
    rintro _ _ _ _ ⟨rfl, rfl⟩
    apply InStep.bind InStep.put
    rintro _ _ _ _ ⟨rfl, rfl⟩
    exact .pure ⟨(h.put_process hlost).put_process hwon, rfl⟩
  · exact .throw _

/-- What a retirement does when the old process is empty. -/
private def stopSiblings (plan : Plan) (now : Time) (d : Deployment) : Transaction Change := do
  let siblings ← Transaction.select (plan.isSibling d.app)
  siblings.forM fun p => Transaction.put (stopped now p)
  Transaction.put { d with stopped := d.stopped ++ siblings.map AppProcess.guid, updatedAt := now }
  return .retired (.ofNat siblings.length)

private theorem stopSiblings_ok (hs : s.Keyed) {d : Deployment}
    (hd : s.records.deployment d.guid = some d) :
    ∃ n s', stopSiblings plan now d s = (.ok (.retired n), s') ∧ Coincide s s' := by
  let siblings := (s.processes.records AppProcess).filter (plan.isSibling d.app)
  let working := (siblings.map (stopped now)).foldl Store.put s
  let remembering : Deployment :=
    { d with stopped := d.stopped ++ siblings.map AppProcess.guid, updatedAt := now }
  have hkeyed : working.Keyed := hs.foldl_put _
  have hrecords : working.records = _ :=
    Store.records_rewrite_processes hs (plan.isSibling d.app) (stopped now) fun _ => rfl
  have hworking : Coincide s working := by
    refine ⟨hs, hkeyed, ?_⟩
    rw [hrecords]
    refine congrArg (Records.mk _ · _ _) ?_
    funext key
    rw [Option.map_map]
    congr 1
    funext p
    by_cases hp : plan.isSibling d.app p <;> simp [hp, stopped, AppProcess.core]
  have hrow : working.records.deployment d.guid = some d := by
    rw [hrecords]
    exact hd
  refine ⟨.ofNat siblings.length, working.put remembering, ?_,
    hworking.trans (.overwrite_deployment hkeyed hrow rfl)⟩
  refine bind_ok.mpr ⟨siblings, s, (select_ok hs).mpr ⟨rfl, rfl⟩, ?_⟩
  refine bind_ok.mpr ⟨(), working, forM_put, ?_⟩
  exact bind_ok.mpr ⟨(), working.put remembering, put_ok.mpr rfl, pure_ok.mpr ⟨rfl, rfl⟩⟩

private theorem stopOthers_ok (hs : s.Keyed) {d : Deployment}
    (hd : s.records.deployment d.guid = some d) (stopOthers : Bool) :
    ∃ n s', (if stopOthers then stopSiblings plan now d else pure (.retired 0)) s =
      (.ok (.retired n), s') ∧ Coincide s s' := by
  cases stopOthers with
  | true => exact stopSiblings_ok hs hd
  | false => exact ⟨0, s, rfl, .refl hs⟩

theorem inStep_retire (h : Coincide s t) (stopOthers stopOthers' : Bool) :
    InStep (plan.retire stopOthers now) (plan.retire stopOthers' now) s t
      fun change change' s' t' => Coincide s' t' ∧ change.core = change'.core := by
  apply InStep.bind (InStep.expect _ _)
  rintro _ _ _ _ ⟨_, rfl, rfl⟩
  apply InStep.bind (inStep_underWay h)
  rintro d d' _ _ ⟨_, hd, hd', rfl, rfl⟩
  rw [← h.left.guid_deployment hd] at hd
  rw [← h.right.guid_deployment hd'] at hd'
  apply InStep.bind (InStep.require h (h.process plan.old))
  rintro old old' _ _ ⟨hold, _, _, rfl, rfl⟩
  rw [← expectCount_eq hold]
  apply InStep.bind (InStep.expect _ _)
  rintro _ _ _ _ ⟨_, rfl, rfl⟩
  apply InStep.bind InStep.put
  rintro _ _ _ _ ⟨rfl, rfl⟩
  have hemptied : AppProcess.core { old with instances := 0, updatedAt := now } =
      AppProcess.core { old' with instances := 0, updatedAt := now } :=
    congrArg (fun p : AppProcess => { p with instances := 0 }) hold
  have hput := h.put_process hemptied
  obtain ⟨n, s', hrun, hleft⟩ := stopOthers_ok hput.left hd stopOthers
  obtain ⟨n', t', hrun', hright⟩ := stopOthers_ok hput.right hd' stopOthers'
  exact .of_ok hrun hrun' ⟨(hleft.symm.trans hput).trans hright, rfl⟩

private theorem core_startAgain (keys : List Guid) (p : AppProcess) :
    (startAgain now keys p).core = p.core := by
  unfold startAgain
  split <;> rfl

private theorem restart_coincide (hs : s.Keyed) (now : Time) (keys : List Guid) :
    ∃ n s', restart now keys s = (.ok n, s') ∧ Coincide s s' := by
  obtain ⟨restarted, s', hrun, h⟩ := restart_ok hs now keys
  refine ⟨_, s', hrun, hs, h.keyed, ?_⟩
  rw [h.records]
  refine congrArg (Records.mk _ · _ _) ?_
  funext key
  rw [Option.map_map]
  congr 1
  funext p
  exact (core_startAgain keys p).symm

theorem inStep_cutOver (h : Coincide s t) :
    InStep (plan.cutOver now) (plan.cutOver now) s t
      fun change change' s' t' => Coincide s' t' ∧ change.core = change'.core := by
  apply InStep.bind (InStep.expect _ _)
  rintro _ _ _ _ ⟨_, rfl, rfl⟩
  apply InStep.bind (inStep_underWay h)
  rintro d d' _ _ ⟨hcore, _, _, rfl, rfl⟩
  obtain ⟨_, happ, _⟩ := Deployment.core_eq_iff.mp hcore
  rw [← happ]
  apply InStep.bind (InStep.require h (congrArg (Option.map id) (congrFun h.app d.app)))
  rintro app app' _ _ ⟨hsame, _, _, rfl, rfl⟩
  obtain rfl : app = app' := hsame
  apply InStep.bind (InStep.expect _ _)
  rintro _ _ _ _ ⟨_, rfl, rfl⟩
  apply InStep.bind (InStep.require h (h.process plan.old))
  rintro old old' _ _ ⟨hold, _, _, rfl, rfl⟩
  rw [← expectCount_eq hold]
  apply InStep.bind (InStep.expect _ _)
  rintro _ _ _ _ ⟨_, rfl, rfl⟩
  apply InStep.bind (InStep.require h (h.process plan.new))
  rintro new new' _ _ ⟨hnew, _, _, rfl, rfl⟩
  obtain ⟨hguid, _⟩ := AppProcess.core_eq_iff.mp hnew
  have hpromoted : AppProcess.core { new with kind := webKind, updatedAt := now } =
      AppProcess.core { new' with kind := webKind, updatedAt := now } :=
    congrArg (fun p : AppProcess => { p with kind := webKind }) hnew
  have hended :
      Deployment.core { d with state := .deployed, webish := none, stopped := [], updatedAt := now } =
      Deployment.core { d' with state := .deployed, webish := none, stopped := [], updatedAt := now } :=
    congrArg (fun d : Deployment => { d with state := .deployed, webish := none }) hcore
  rw [← hguid] at hpromoted ⊢
  rw [← happ] at hended
  apply InStep.bind InStep.drop
  rintro _ _ _ _ ⟨rfl, rfl⟩
  apply InStep.bind InStep.put
  rintro _ _ _ _ ⟨rfl, rfl⟩
  apply InStep.bind InStep.put
  rintro _ _ _ _ ⟨rfl, rfl⟩
  have hput := ((h.drop_process plan.old).put_process hpromoted).put_app
    { app with web := some new.guid, updatedAt := now }
  apply InStep.bind (InStep.select_routes hput _)
  rintro routes _ _ _ ⟨rfl, rfl, rfl⟩
  apply InStep.bind (InStep.coincide forM_put forM_put (hput.put_routes _))
  rintro _ _ s₁ t₁ hmoved
  obtain ⟨n, s₂, hrun, hleft⟩ := restart_coincide hmoved.left now d.stopped
  obtain ⟨n', t₂, hrun', hright⟩ := restart_coincide hmoved.right now d'.stopped
  apply InStep.bind (InStep.coincide hrun hrun' ((hleft.symm.trans hmoved).trans hright))
  rintro _ _ s₃ t₃ hrestarted
  apply InStep.bind InStep.put
  rintro _ _ _ _ ⟨rfl, rfl⟩
  exact .pure ⟨hrestarted.put_deployment hended, rfl⟩

end Plan

def Pair.core (pair : Pair) : Pair := ⟨pair.old.core, pair.new.core⟩

def Outcome.core : Outcome → Outcome
  | .moved change => .moved change.core
  | .skipped reason => .skipped reason

/-- An entry without the numbers of processes that were stopped or started again. -/
def Entry.core (entry : Entry) : Entry :=
  ⟨entry.deployment, entry.asked.map AppProcess.core, entry.result.map Outcome.core⟩

variable {s t : Store} {now : Time} {d d' : Deployment} {pair pair' : Pair}

/-- The edits that two replicas plan from the same core, whatever option each of them has. -/
theorem Pair.inStep_edit (h : Coincide s t) (hpair : pair.core = pair'.core)
    (hd : d.core = d'.core) (stopOthers stopOthers' : Bool) (now : Time) :
    InStep ((pair.edit stopOthers).transaction (pair.plan d) now)
      ((pair'.edit stopOthers').transaction (pair'.plan d') now) s t
      fun change change' s' t' => Coincide s' t' ∧ change.core = change'.core := by
  obtain ⟨hold, hnew⟩ := Pair.mk.injEq .. ▸ hpair
  obtain ⟨holdGuid, _, _, holdCount, _⟩ := AppProcess.core_eq_iff.mp hold
  obtain ⟨hnewGuid, _, _, hnewCount, _⟩ := AppProcess.core_eq_iff.mp hnew
  obtain ⟨hguid, _⟩ := Deployment.core_eq_iff.mp hd
  have hplan : pair.plan d = pair'.plan d' := by
    rw [plan, plan, hguid, holdGuid, hnewGuid]
  have hphase : pair.phase = pair'.phase := by
    rw [phase, phase, holdCount]
  rw [hplan, edit, edit, hphase, holdCount, hnewCount]
  cases pair'.phase with
  | step => exact Plan.inStep_step h _ _
  | retire => exact Plan.inStep_retire h _ _
  | cutOver => exact Plan.inStep_cutOver h

namespace Turn

theorem conclude_core (h : Coincide s t) (hpair : pair.core = pair'.core)
    (hd : d.core = d'.core) (stopOthers stopOthers' : Bool) (now : Time) :
    let after := conclude stopOthers now d pair s
    let after' := conclude stopOthers' now d' pair' t
    after.1.map Outcome.core = after'.1.map Outcome.core ∧ Coincide after.2 after'.2 := by
  rcases Pair.inStep_edit h hpair hd stopOthers stopOthers' now with
    ⟨change, change', s', t', hs, ht, hcoincide, hcore⟩ | ⟨reason, s', t', hs, ht⟩
  · have happly : (pair.edit stopOthers).apply (pair.plan d) now s = (.ok change, s') :=
      commit_ok.mpr hs
    have happly' : (pair'.edit stopOthers').apply (pair'.plan d') now t = (.ok change', t') :=
      commit_ok.mpr ht
    simp only [conclude, happly, happly']
    exact ⟨congrArg (fun c => (Except.ok (Outcome.moved c) : Result)) hcore, hcoincide⟩
  · have happly : (pair.edit stopOthers).apply (pair.plan d) now s = (.error reason, s) :=
      commit_error.mpr ⟨⟨s', hs⟩, rfl⟩
    have happly' : (pair'.edit stopOthers').apply (pair'.plan d') now t = (.error reason, t) :=
      commit_error.mpr ⟨⟨t', ht⟩, rfl⟩
    simp only [conclude, happly, happly']
    exact ⟨trivial, h⟩

private theorem map_bind_eq {ε α β γ δ : Type} {x x' : Except ε α} {f f' : α → Except ε β}
    (view : α → γ) {seen : β → δ} (hx : x.map view = x'.map view)
    (hf : ∀ a a', view a = view a' → (f a).map seen = (f' a').map seen) :
    (x >>= f).map seen = (x' >>= f').map seen := by
  cases x with
  | error e =>
      cases x' with
      | error e' => exact congrArg Except.error (Except.error.inj hx)
      | ok a' => cases hx
  | ok a =>
      cases x' with
      | error e' => cases hx
      | ok a' => exact hf a a' (Except.ok.inj hx)

private theorem map_required {α β : Type} (missing : UpdateError) (found : Option α)
    (view : α → β) :
    (required missing (.ok found)).map view = required missing (.ok (found.map view)) := by
  cases found <;> rfl

private theorem webOf_eq (h : Coincide s t) (hd : d.core = d'.core) : webOf s d = webOf t d' := by
  obtain ⟨_, happ, _⟩ := Deployment.core_eq_iff.mp hd
  rw [webOf, webOf, get?_eq h.left, get?_eq h.right, record_app, record_app, h.app, happ]

private theorem processAt_core (h : Coincide s t) (key : Guid) :
    (processAt s key).map AppProcess.core = (processAt t key).map AppProcess.core := by
  rw [processAt, processAt, get?_eq h.left, get?_eq h.right, record_process, record_process,
    map_required, map_required, h.process key]

private theorem webishOf_eq (hd : d.core = d'.core) {old old' : AppProcess}
    (hold : old.core = old'.core) : webishOf d old = webishOf d' old' := by
  obtain ⟨hguid, _, _, _, hwebish, _⟩ := Deployment.core_eq_iff.mp hd
  obtain ⟨holdGuid, _⟩ := AppProcess.core_eq_iff.mp hold
  rw [webishOf, webishOf, hwebish, hguid, holdGuid]

theorem pairOf_core (h : Coincide s t) (hd : d.core = d'.core) :
    (pairOf s d).map Pair.core = (pairOf t d').map Pair.core := by
  refine map_bind_eq id (congrArg (Except.map id) (webOf_eq h hd)) ?_
  rintro web _ rfl
  refine map_bind_eq AppProcess.core (processAt_core h web) ?_
  intro old old' hold
  refine map_bind_eq id (congrArg (Except.map id) (webishOf_eq hd hold)) ?_
  rintro webish _ rfl
  refine map_bind_eq AppProcess.core (processAt_core h webish) ?_
  intro new new' hnew
  exact congrArg Except.ok (congrArg₂ Pair.mk hold hnew)

end Turn

namespace Cycle

theorem turn_core (h : Coincide s t) (hd : d.core = d'.core) (stopOthers stopOthers' : Bool)
    (now : Time) (answer : Guid → Answer) :
    let after := turn stopOthers now (fun p => answer p.guid) d s
    let after' := turn stopOthers' now (fun p => answer p.guid) d' t
    after.1.core = after'.1.core ∧ Coincide after.2 after'.2 := by
  obtain ⟨hguid, _⟩ := Deployment.core_eq_iff.mp hd
  have hpairs := Turn.pairOf_core h hd
  simp only [turn]
  cases hpair : Turn.pairOf s d with
  | error e =>
      cases hpair' : Turn.pairOf t d' with
      | error e' =>
          rw [hpair, hpair'] at hpairs
          obtain rfl := Except.error.inj hpairs
          simp only [Entry.core, hguid]
          exact ⟨trivial, h⟩
      | ok pair' =>
          rw [hpair, hpair'] at hpairs
          cases hpairs
  | ok pair =>
      cases hpair' : Turn.pairOf t d' with
      | error e' =>
          rw [hpair, hpair'] at hpairs
          cases hpairs
      | ok pair' =>
          rw [hpair, hpair'] at hpairs
          have hcore : pair.core = pair'.core := Except.ok.inj hpairs
          have hnew : pair.new.core = pair'.new.core := congrArg Pair.new hcore
          obtain ⟨hnewGuid, _⟩ := AppProcess.core_eq_iff.mp hnew
          obtain ⟨hresult, hcoincide⟩ := Turn.conclude_core h hcore hd stopOthers stopOthers' now
          simp only [Turn.verdict, hnewGuid]
          cases Readiness.ofAnswer (answer pair'.new.guid) with
          | ready =>
              simp only [Entry.core, hguid, Option.map_some, hnew, hresult]
              exact ⟨trivial, hcoincide⟩
          | unavailable | notRunning =>
              simp only [Entry.core, hguid, Option.map_some, hnew]
              exact ⟨trivial, h⟩

theorem turns_core (h : Coincide s t) {ds ds' : List Deployment}
    (hds : ds.map Deployment.core = ds'.map Deployment.core) (stopOthers stopOthers' : Bool)
    (clock : Clock) (answer : Guid → Answer) (n : Nat) :
    let after := turns stopOthers clock (fun _ p => answer p.guid) n ds s
    let after' := turns stopOthers' clock (fun _ p => answer p.guid) n ds' t
    after.1.map Entry.core = after'.1.map Entry.core ∧ Coincide after.2 after'.2 := by
  induction ds generalizing ds' n s t with
  | nil =>
      obtain rfl := List.map_eq_nil_iff.mp hds.symm
      exact ⟨rfl, h⟩
  | cons d ds ih =>
      cases ds' with
      | nil => cases hds
      | cons d' ds' =>
          obtain ⟨hd, hrest⟩ := List.cons.inj hds
          obtain ⟨hentry, hcoincide⟩ := turn_core h hd stopOthers stopOthers' (clock n) answer
          obtain ⟨hreport, hafter⟩ := ih hcoincide hrest (n + 1)
          simp only [turns, List.map_cons, hentry, hreport]
          exact ⟨trivial, hafter⟩

theorem agenda_core (h : Coincide s t) : ∃ ds ds', agenda s = .ok ds ∧ agenda t = .ok ds' ∧
    ds.map Deployment.core = ds'.map Deployment.core := by
  refine ⟨_, _, select_eq h.left _, select_eq h.right _, ?_⟩
  have hrecords : (s.deployments.records Deployment).map Deployment.core =
      (t.deployments.records Deployment).map Deployment.core :=
    Rows.map_records_eq h.left.deployments h.right.deployments h.deployment
  have hfilter : ∀ ds : List Deployment,
      (ds.filter (·.state = .deploying)).map Deployment.core =
        (ds.map Deployment.core).filter (·.state = .deploying) := by
    intro ds
    rw [List.filter_map]
    rfl
  exact (hfilter _).trans ((congrArg _ hrecords).trans (hfilter _).symm)

theorem update_core (h : Coincide s t) (stopOthers stopOthers' : Bool) (clock : Clock)
    (answer : Guid → Answer) :
    let after := update stopOthers clock (fun _ p => answer p.guid) s
    let after' := update stopOthers' clock (fun _ p => answer p.guid) t
    (∃ report report', after.1 = .ok report ∧ after'.1 = .ok report' ∧
      report.map Entry.core = report'.map Entry.core) ∧ Coincide after.2 after'.2 := by
  obtain ⟨ds, ds', hds, hds', hcore⟩ := agenda_core h
  obtain ⟨hreport, hcoincide⟩ := turns_core h hcore stopOthers stopOthers' clock answer 0
  simp only [update, hds, hds']
  exact ⟨⟨_, _, rfl, rfl, hreport⟩, hcoincide⟩

/-- The option to stop other processes does not show in the course of a rollout. Two runs on one
store meet the same times and the same answers, and each has the option in some cycles and not in
others: after any number of cycles the core of the records is the same, and the next cycle reports
the same but for the numbers of processes stopped and started again. -/
theorem core_of_options {s : Store} (hs : s.Keyed) (option option' : Nat → Bool)
    (clock : Nat → Clock) (answer : Nat → Guid → Answer) (n : Nat) :
    let pass := fun option k => Pass.mk (option k) (clock k) fun _ p => answer k p.guid
    let after := fun option => Pass.after ((List.range n).map (pass option)) s
    (after option).records.core = (after option').records.core ∧
      ∃ report report', ((pass option n).run (after option)).1 = .ok report ∧
        ((pass option' n).run (after option')).1 = .ok report' ∧
        report.map Entry.core = report'.map Entry.core := by
  intro pass after
  have hcoincide : Coincide (after option) (after option') := by
    induction n with
    | zero => exact .refl hs
    | succ n ih =>
        simp only [after, List.range_succ, List.map_append, List.map_singleton,
          Pass.after_append] at ih ⊢
        exact (update_core ih (option n) (option' n) (clock n) (answer n)).2
  exact ⟨hcoincide.core,
    (update_core hcoincide (option n) (option' n) (clock n) (answer n)).1⟩

theorem core_of_options_sample :
    let pass := fun option => Pass.mk option (fun _ => 5) fun _ _ => .ok ∅
    let after := fun option => Pass.after ((List.range 1).map fun _ => pass option) Sample.staffed
    Sample.staffed.Keyed ∧ (after true).records.core = (after false).records.core ∧
      ((after true).records.process "shop-3").map AppProcess.state = some .stopped ∧
      ((after false).records.process "shop-3").map AppProcess.state = some .started := by
  intro pass after
  obtain ⟨hcore, _⟩ := core_of_options Sample.keyed_staffed (fun _ => true) (fun _ => false)
    (fun _ _ => 5) (fun _ _ => .ok ∅) 1
  exact ⟨Sample.keyed_staffed, hcore, by decide +kernel, by decide +kernel⟩

end Cycle
end Rollout
