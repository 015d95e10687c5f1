import Rollout.Proofs.Edit.Effect

/-!
# Cut-overs, taken apart

A cut-over succeeds exactly when the deployment is under way from the web process of its app, which
has no instances left, to a process that exists. Starting the stopped processes again never fails.
-/

namespace Rollout.Plan

open Transaction

variable {plan : Plan} {now : Time} {s s' : Store} {change : Change}

/-- The processes after a restart: the stopped ones under these keys run again. -/
structure Restarted (now : Time) (keys : List Guid) (s : Store) (restarted : List Guid)
    (s' : Store) : Prop where
  keyed : s'.Keyed
  records : s'.records =
    { s.records with process := fun key => (s.records.process key).map (startAgain now keys) }
  nodup : restarted.Nodup
  mem : ∀ key, key ∈ restarted ↔
    key ∈ keys ∧ ∃ p, s.records.process key = some p ∧ p.state = .stopped

private theorem Restarted.skip (hs : s.Keyed) {g : Guid} {keys restarted : List Guid}
    (h : Restarted now keys s restarted s')
    (hg : ∀ p, s.records.process g = some p → p.state ≠ .stopped) :
    Restarted now (g :: keys) s restarted s' where
  keyed := h.keyed
  records := by
    rw [h.records]
    refine congrArg (Records.mk s.records.app · s.records.deployment s.records.route) ?_
    funext key
    cases hp : s.records.process key with
    | none => rfl
    | some p =>
        have hkey : p.guid = key := hs.guid_process hp
        have hne : p.state = .stopped → p.guid ≠ g := by
          intro hstopped heq
          rw [← hkey, heq] at hp
          exact hg p hp hstopped
        simp only [Option.map_some, startAgain, List.mem_cons]
        congr 1
        by_cases hstopped : p.state = .stopped
        · simp [hne hstopped]
        · simp [hstopped]
  nodup := h.nodup
  mem key := by
    rw [h.mem, List.mem_cons]
    constructor
    · rintro ⟨hmem, hstopped⟩
      exact ⟨.inr hmem, hstopped⟩
    · rintro ⟨rfl | hmem, p, hp, hstopped⟩
      · exact absurd hstopped (hg p hp)
      · exact ⟨hmem, p, hp, hstopped⟩

private theorem Restarted.start (hs : s.Keyed) {p : AppProcess} {keys restarted : List Guid}
    (hp : s.records.process p.guid = some p) (hstopped : p.state = .stopped)
    (h : Restarted now keys (s.put { p with state := .started, updatedAt := now }) restarted s') :
    Restarted now (p.guid :: keys) s (p.guid :: restarted) s' where
  keyed := h.keyed
  records := by
    rw [h.records, Store.records_put_process]
    refine congrArg (Records.mk s.records.app · s.records.deployment s.records.route) ?_
    funext key
    by_cases hkey : key = p.guid
    · simp [hkey, hp, startAgain, hstopped]
    · simp only [Function.update_of_ne hkey]
      cases hq : s.records.process key with
      | none => rfl
      | some q =>
          have hne : q.guid ≠ p.guid := by
            rw [hs.guid_process hq]
            exact hkey
          simp [startAgain, hne]
  nodup := by
    refine List.nodup_cons.mpr ⟨?_, h.nodup⟩
    intro hmem
    obtain ⟨_, q, hq, hqs⟩ := (h.mem p.guid).mp hmem
    simp only [Store.records_put_process, Function.update_self, Option.some.injEq] at hq
    subst hq
    cases hqs
  mem key := by
    rw [List.mem_cons, List.mem_cons, h.mem]
    by_cases hkey : key = p.guid
    · simp [hkey, hp, hstopped]
    · simp [hkey]

theorem restart_ok (hs : s.Keyed) (now : Time) (keys : List Guid) :
    ∃ restarted s', restart now keys s = (.ok (.ofNat restarted.length), s') ∧
      Restarted now keys s restarted s' := by
  induction keys generalizing s with
  | nil =>
      have hid : startAgain now [] = id := by
        funext p
        simp [startAgain]
      refine ⟨[], s, rfl, hs, ?_, List.nodup_nil, by simp⟩
      simp [hid]
  | cons g keys ih =>
      cases hg : s.records.process g with
      | none =>
          obtain ⟨restarted, s', hrun, h⟩ := ih hs
          refine ⟨restarted, s', ?_, h.skip hs (by simp [hg])⟩
          exact bind_ok.mpr ⟨none, s, (lookup_ok hs).mpr ⟨hg, rfl⟩, hrun⟩
      | some p =>
          obtain rfl : p.guid = g := hs.guid_process hg
          by_cases hstopped : p.state = .stopped
          · obtain ⟨restarted, s', hrun, h⟩ :=
              ih (hs.put { p with state := .started, updatedAt := now })
            refine ⟨p.guid :: restarted, s', ?_, h.start hs hg hstopped⟩
            refine bind_ok.mpr ⟨some p, s, (lookup_ok hs).mpr ⟨hg, rfl⟩, ?_⟩
            simp only [hstopped, if_true]
            refine bind_ok.mpr ⟨(), _, put_ok.mpr rfl, ?_⟩
            have hcount : UInt32.ofNat restarted.length + 1 =
                UInt32.ofNat (p.guid :: restarted).length := (UInt32.ofNat_add _ 1).symm
            exact bind_ok.mpr ⟨_, _, hrun, pure_ok.mpr ⟨hcount, rfl⟩⟩
          · obtain ⟨restarted, s', hrun, h⟩ := ih hs
            refine ⟨restarted, s', ?_, h.skip hs (by simp [hg, hstopped])⟩
            refine bind_ok.mpr ⟨some p, s, (lookup_ok hs).mpr ⟨hg, rfl⟩, ?_⟩
            simp only [hstopped, if_false]
            exact hrun

/-- The store when the old process is gone and the new one is the web process of the app. -/
def replaced (plan : Plan) (now : Time) (app : App) (new : AppProcess) (s : Store) : Store :=
  let s := s.drop AppProcess plan.old
  let s := s.put { new with kind := webKind, updatedAt := now }
  s.put { app with web := some new.guid, updatedAt := now }

/-- The store when the routes have followed, in which the stopped processes are looked for. -/
def followed (plan : Plan) (now : Time) (app : App) (new : AppProcess) (s : Store) : Store :=
  let led := (s.routes.records Route).filter (·.process = plan.old)
  (led.map fun r => { r with process := new.guid }).foldl Store.put (replaced plan now app new s)

theorem keyed_replaced (hs : s.Keyed) (plan : Plan) (now : Time) (app : App)
    (new : AppProcess) : (replaced plan now app new s).Keyed :=
  ((hs.drop _).put _).put _

theorem keyed_followed (hs : s.Keyed) (plan : Plan) (now : Time) (app : App)
    (new : AppProcess) : (followed plan now app new s).Keyed :=
  (keyed_replaced hs plan now app new).foldl_put _

theorem records_followed (hs : s.Keyed) (now : Time) {app : App} {new : AppProcess}
    {d : Deployment} (happ : s.records.app d.app = some app)
    (hnew : s.records.process plan.new = some new) :
    (followed plan now app new s).records =
      { s.records with
        app := Function.update s.records.app d.app
          (some { app with web := some plan.new, updatedAt := now })
        process := Function.update (Function.update s.records.process plan.old none)
          plan.new (some { new with kind := webKind, updatedAt := now })
        route := fun key => (s.records.route key).map plan.follow } := by
  have hrewrite := Store.records_rewrite_routes (keyed_replaced hs plan now app new)
    (·.process = plan.old) (fun r => { r with process := new.guid }) fun _ => rfl
  rw [followed]
  refine hrewrite.trans ?_
  rw [replaced, ← hs.guid_app happ, ← hs.guid_process hnew]
  simp only [Store.records_put_app, Store.records_put_process, Store.records_drop_process,
    decide_eq_true_iff]
  refine congrArg (Records.mk _ _ _) ?_
  funext key
  congr 1
  funext r
  rw [follow, hs.guid_process hnew]

theorem stopped_followed {new : AppProcess} (hne : plan.old ≠ plan.new)
    (hnew : s.records.process plan.new = some new)
    (key : Guid) :
    (∃ p, Function.update (Function.update s.records.process plan.old none)
        plan.new (some { new with kind := webKind, updatedAt := now }) key = some p ∧
        p.state = .stopped) ↔
      key ≠ plan.old ∧ ∃ p, s.records.process key = some p ∧ p.state = .stopped := by
  by_cases hkn : key = plan.new
  · simp [hkn, hnew, hne.symm]
  · by_cases hko : key = plan.old
    · simp [hko, hne]
    · simp [hkn, hko]

/-- What a cut-over found, and the stores that it went through. -/
theorem cutOver_ok (hs : s.Keyed) (h : plan.cutOver now s = (.ok change, s')) :
    ∃ d app old new restarted started, plan.Current s.records d old ∧
      s.records.app d.app = some app ∧ app.web = some plan.old ∧ old.instances = 0 ∧
      s.records.process plan.new = some new ∧
      restart now d.stopped (followed plan now app new s) =
        (.ok (.ofNat restarted.length), started) ∧
      Restarted now d.stopped (followed plan now app new s) restarted started ∧
      change = .cutOver (.ofNat ((s.routes.records Route).filter (·.process = plan.old)).length)
        (.ofNat restarted.length) ∧
      s' = started.put
        { d with state := .deployed, webish := none, stopped := [], updatedAt := now } := by
  simp only [cutOver, bind_ok, distinct_ok, underWay_ok hs, require_ok hs, expect_ok,
    AppProcess.expectCount_ok, put_ok, drop_ok, Store.record_process, Store.record_app, and_assoc,
    exists_and_left, exists_eq_left', exists_const] at h
  obtain ⟨hne, d, hd, hdeploying, hwebish, app, happ, hweb, old, hold, hnone, new, hnew, routes,
    selected, hselect, _, moved, hmoved, n, started, hrestart, h⟩ := h
  obtain ⟨rfl, rfl⟩ := (select_ok (keyed_replaced hs plan now app new)).mp hselect
  obtain rfl : followed plan now app new s = moved := forM_put_ok.mp hmoved
  obtain ⟨restarted, started', hrestart', hr⟩ :=
    restart_ok (keyed_followed hs plan now app new) now d.stopped
  obtain ⟨rfl, rfl⟩ := ok_unique hrestart' hrestart
  obtain ⟨rfl, rfl⟩ := pure_ok.mp h
  exact ⟨d, app, old, new, restarted, started', ⟨hne, hd, hdeploying, hwebish, hold⟩, happ,
    of_decide_eq_true hweb, hnone, hnew, hrestart', hr, rfl, rfl⟩

theorem cutOver_effect (hs : s.Keyed) (h : plan.cutOver now s = (.ok change, s')) :
    s'.Keyed ∧ Edit.Effect plan now s.records .cutOver change s'.records := by
  obtain ⟨d, app, old, new, restarted, started, hcurrent, happ, hweb, hnone, hnew, _, hr, rfl, rfl⟩ :=
    cutOver_ok hs h
  refine ⟨hr.keyed.put _, ?_⟩
  have hfollowed := records_followed hs now happ hnew
  have hroutes : ∀ r, r ∈ (s.routes.records Route).filter (·.process = plan.old) ↔
      s.records.route r.guid = some r ∧ r.process = plan.old := by
    intro r
    rw [List.mem_filter, Rows.mem_records hs.routes, decide_eq_true_iff]
    rfl
  have hrestarted : ∀ key, key ∈ restarted ↔ key ∈ d.stopped ∧ key ≠ plan.old ∧
      ∃ p, s.records.process key = some p ∧ p.state = .stopped := by
    intro key
    rw [hr.mem, hfollowed, stopped_followed hcurrent.distinct hnew]
  have hsorted := Rows.ascending_filter_records hs.routes fun r : Route => r.process = plan.old
  have heffect : Edit.Effect plan now _ _ _ _ :=
    .cutOver hcurrent happ hweb hnone hnew hsorted hroutes hr.nodup hrestarted
  rw [Store.records_put_deployment, hr.records, hfollowed]
  rw [afterCutOver, ← hs.guid_deployment hcurrent.deployment] at heffect
  exact heffect

theorem succeeds_cutOver (hs : s.Keyed) {d : Deployment} {app : App} {old new : AppProcess}
    (current : plan.Current s.records d old) (owner : s.records.app d.app = some app)
    (web : app.web = some plan.old) (none_left : old.instances = 0)
    (target : s.records.process plan.new = some new) : Succeeds (plan.cutOver now) s := by
  obtain ⟨hne, hd, hdeploying, hwebish, hold⟩ := current
  have hput := keyed_replaced hs plan now app new
  obtain ⟨restarted, started, hrestart, _⟩ :=
    restart_ok (keyed_followed hs plan now app new) now d.stopped
  apply Succeeds.bind (a := ()) (distinct_ok.mpr ⟨hne, rfl⟩)
  apply Succeeds.bind ((underWay_ok hs).mpr ⟨hd, hdeploying, hwebish, rfl⟩)
  apply Succeeds.bind ((require_ok hs).mpr ⟨owner, rfl⟩)
  apply Succeeds.bind (a := ()) (expect_ok.mpr ⟨decide_eq_true web, rfl⟩)
  apply Succeeds.bind ((require_ok hs).mpr ⟨hold, rfl⟩)
  apply Succeeds.bind (a := ()) (AppProcess.expectCount_ok.mpr ⟨none_left, rfl⟩)
  apply Succeeds.bind ((require_ok hs).mpr ⟨target, rfl⟩)
  apply Succeeds.bind (a := ()) (drop_ok.mpr rfl)
  apply Succeeds.bind (a := ()) (put_ok.mpr rfl)
  apply Succeeds.bind (a := ()) (put_ok.mpr rfl)
  apply Succeeds.bind ((select_ok hput).mpr ⟨rfl, rfl⟩)
  apply Succeeds.bind forM_put
  apply Succeeds.bind hrestart
  apply Succeeds.bind (a := ()) (put_ok.mpr rfl)
  exact succeeds_pure _

theorem failsInConflict_cutOver (hs : s.Keyed) {d : Deployment} {app : App}
    {old new : AppProcess} (hd : s.records.deployment plan.deployment = some d)
    (happ : s.records.app d.app = some app) (hold : s.records.process plan.old = some old)
    (hnew : s.records.process plan.new = some new) :
    FailsInConflict (plan.cutOver now) s := by
  apply FailsInConflict.bind (failsInConflict_expect _ _)
  intro _ _ h
  obtain ⟨_, rfl⟩ := distinct_ok.mp h
  apply FailsInConflict.bind (failsInConflict_underWay hs hd)
  intro d' _ h
  obtain ⟨hd', _, _, rfl⟩ := (underWay_ok hs).mp h
  obtain rfl : d' = d := Option.some.inj (hd'.symm.trans hd)
  apply FailsInConflict.bind (failsInConflict_require hs happ)
  intro app' _ h
  obtain ⟨_, rfl⟩ := (require_ok hs).mp h
  apply FailsInConflict.bind (failsInConflict_expect _ _)
  intro _ _ h
  obtain ⟨_, rfl⟩ := expect_ok.mp h
  apply FailsInConflict.bind (failsInConflict_require hs hold)
  intro old' _ h
  obtain ⟨_, rfl⟩ := (require_ok hs).mp h
  apply FailsInConflict.bind (failsInConflict_expect _ _)
  intro _ _ h
  obtain ⟨_, rfl⟩ := AppProcess.expectCount_ok.mp h
  apply FailsInConflict.bind (failsInConflict_require hs hnew)
  intro new' _ h
  obtain ⟨_, rfl⟩ := (require_ok hs).mp h
  apply FailsInConflict.bind (failsInConflict_drop _)
  intro _ _ h
  obtain rfl := drop_ok.mp h
  apply FailsInConflict.bind (failsInConflict_put _)
  intro _ _ h
  obtain rfl := put_ok.mp h
  apply FailsInConflict.bind (failsInConflict_put _)
  intro _ _ h
  obtain rfl := put_ok.mp h
  have hput := keyed_replaced hs plan now app' new'
  apply FailsInConflict.bind (failsInConflict_select hput _)
  intro _ _ h
  obtain ⟨rfl, rfl⟩ := (select_ok hput).mp h
  apply FailsInConflict.bind failsInConflict_forM_put
  intro _ _ h
  obtain rfl : followed plan now app' new' s = _ := forM_put_ok.mp h
  obtain ⟨restarted, started, hrestart, _⟩ :=
    restart_ok (keyed_followed hs plan now app' new') now d'.stopped
  apply FailsInConflict.bind (failsInConflict_of_ok hrestart)
  intro _ _ _
  apply FailsInConflict.bind (failsInConflict_put _)
  intro _ _ _
  exact failsInConflict_pure _

end Rollout.Plan
