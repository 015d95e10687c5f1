import Rollout.Proofs.Edit.Effect

/-!
# What an edit leaves as it was

An edit touches the deployment and the two processes of its plan. Of any other process it may
change the state, and of a route the process that it leads to.
-/

namespace Rollout

open Function (update update_self update_of_ne)

/-- A process but for its state and its times. -/
structure AppProcess.Shape where
  app : Guid
  kind : String
  instances : UInt32

def AppProcess.shape (p : AppProcess) : AppProcess.Shape := ⟨p.app, p.kind, p.instances⟩

def Records.shape (v : Records) (key : Guid) : Option AppProcess.Shape :=
  (v.process key).map AppProcess.shape

/-- A route but for the process that it leads to. -/
def Route.label (r : Route) : Guid × Guid × String := (r.guid, r.app, r.url)

theorem Records.shape_of_process {v : Records} {key : Guid} {p : AppProcess}
    (h : v.process key = some p) : v.shape key = some p.shape := by
  rw [Records.shape, h, Option.map_some]

theorem Records.shape_eq_some {v : Records} {key : Guid} {shape : AppProcess.Shape} :
    v.shape key = some shape ↔ ∃ p, v.process key = some p ∧ p.shape = shape :=
  Option.map_eq_some_iff

theorem Records.shape_eq_none {v : Records} {key : Guid} :
    v.shape key = none ↔ v.process key = none :=
  Option.map_eq_none_iff

theorem Records.process_of_app_of_shape {v w : Records} {key : Guid} {p : AppProcess}
    (h : (w.shape key).map AppProcess.Shape.app = (v.shape key).map AppProcess.Shape.app)
    (hp : v.process key = some p) : ∃ q, w.process key = some q ∧ q.app = p.app := by
  rw [Records.shape_of_process hp, Option.map_some] at h
  obtain ⟨shape, hshape, happ⟩ := Option.map_eq_some_iff.mp h
  obtain ⟨q, hq, rfl⟩ := Records.shape_eq_some.mp hshape
  exact ⟨q, hq, happ⟩

private theorem shape_update (process : Guid → Option AppProcess) (key : Guid)
    (p : Option AppProcess) :
    (fun k => (update process key p k).map AppProcess.shape) =
      update (fun k => (process k).map AppProcess.shape) key (p.map AppProcess.shape) := by
  funext k
  by_cases hk : k = key
  · simp [hk]
  · simp [hk]

private theorem shape_map {write : AppProcess → AppProcess}
    (hwrite : ∀ p, (write p).shape = p.shape) (process : Guid → Option AppProcess) :
    (fun k => ((process k).map write).map AppProcess.shape) =
      fun k => (process k).map AppProcess.shape := by
  funext k
  rw [Option.map_map]
  congr 1
  funext p
  exact hwrite p

namespace Plan

variable {plan : Plan} {now : Time} {d : Deployment} {app : App} {old new : AppProcess}
  {siblings : List AppProcess} {v : Records}

private theorem shape_stopSibling (app : Guid) (p : AppProcess) :
    (plan.stopSibling now app p).shape = p.shape := by
  unfold stopSibling
  split <;> rfl

private theorem shape_startAgain (keys : List Guid) (p : AppProcess) :
    (startAgain now keys p).shape = p.shape := by
  unfold startAgain
  split <;> rfl

@[simp] theorem label_follow (r : Route) : (plan.follow r).label = r.label := by
  unfold follow
  split <;> rfl

@[simp] theorem shape_afterStep :
    (plan.afterStep now old new v).shape = update (update v.shape
      plan.old (some { old.shape with instances := old.instances - 1 }))
      plan.new (some { new.shape with instances := new.instances + 1 }) := by
  change (fun k => (update (update v.process _ _) _ _ k).map AppProcess.shape) = _
  rw [shape_update, shape_update]
  rfl

@[simp] theorem shape_afterRetirement :
    (plan.afterRetirement now old v).shape =
      update v.shape plan.old (some { old.shape with instances := 0 }) := by
  change (fun k => (update v.process _ _ k).map AppProcess.shape) = _
  rw [shape_update]
  rfl

@[simp] theorem shape_afterLoneRetirement :
    (plan.afterLoneRetirement now d old siblings v).shape =
      update v.shape plan.old (some { old.shape with instances := 0 }) := by
  have hretired : (plan.afterRetirement now old v).shape =
      update v.shape plan.old (some { old.shape with instances := 0 }) := shape_afterRetirement
  exact (shape_map (shape_stopSibling d.app) _).trans hretired

@[simp] theorem shape_afterCutOver :
    (plan.afterCutOver now d app new v).shape = update (update v.shape
      plan.old none) plan.new (some { new.shape with kind := webKind }) := by
  refine (shape_map (shape_startAgain d.stopped) _).trans ?_
  rw [shape_update, shape_update]
  rfl

end Plan

namespace Edit.Effect

variable {plan : Plan} {now : Time} {v w : Records} {e : Edit} {change : Change} {key : Guid}

theorem current (h : Effect plan now v e change w) : ∃ d old, plan.Current v d old := by
  cases h with
  | step current | retire current | retireAlone current | cutOver current => exact ⟨_, _, current⟩

theorem deployment_of_ne (h : Effect plan now v e change w) (hkey : key ≠ plan.deployment) :
    w.deployment key = v.deployment key := by
  cases h with
  | step | retire => rfl
  | retireAlone | cutOver => exact update_of_ne hkey _ _

theorem deployment_before (h : Effect plan now v e change w) {d : Deployment}
    (hd : w.deployment key = some d) : ∃ before, v.deployment key = some before ∧
      before.app = d.app ∧
      (before.state = d.state ∧ before.webish = d.webish ∨ d.state = .deployed ∧ d.webish = none) := by
  cases h with
  | step | retire => exact ⟨d, hd, rfl, .inl ⟨rfl, rfl⟩⟩
  | @retireAlone before _ _ current =>
      by_cases hkey : key = plan.deployment
      · rw [hkey, Plan.deployment_afterLoneRetirement, update_self, Option.some.injEq] at hd
        subst hd
        exact ⟨before, hkey ▸ current.deployment, rfl, .inl ⟨rfl, rfl⟩⟩
      · rw [Plan.deployment_afterLoneRetirement, update_of_ne hkey] at hd
        exact ⟨d, hd, rfl, .inl ⟨rfl, rfl⟩⟩
  | @cutOver before _ _ _ _ _ current =>
      by_cases hkey : key = plan.deployment
      · rw [hkey, Plan.deployment_afterCutOver, update_self, Option.some.injEq] at hd
        subst hd
        exact ⟨before, hkey ▸ current.deployment, rfl, .inr ⟨rfl, rfl⟩⟩
      · rw [Plan.deployment_afterCutOver, update_of_ne hkey] at hd
        exact ⟨d, hd, rfl, .inl ⟨rfl, rfl⟩⟩

/-- A deployment that is under way after an edit was so before it. -/
theorem underWay_before (h : Effect plan now v e change w) {d : Deployment}
    (hd : w.deployment key = some d) (hdeploying : d.state = .deploying) :
    ∃ before, v.deployment key = some before ∧ before.state = .deploying ∧
      before.app = d.app ∧ before.webish = d.webish := by
  obtain ⟨before, hbefore, happ, ⟨hstate, hwebish⟩ | ⟨hdeployed, _⟩⟩ := h.deployment_before hd
  · exact ⟨before, hbefore, hstate.trans hdeploying, happ, hwebish⟩
  · rw [hdeploying] at hdeployed
    cases hdeployed

theorem deployment_after (h : Effect plan now v e change w)
    (hkey : key ≠ plan.deployment ∨ e ≠ .cutOver) {d : Deployment}
    (hd : v.deployment key = some d) : ∃ d', w.deployment key = some d' ∧
      d'.state = d.state ∧ d'.app = d.app ∧ d'.webish = d.webish := by
  by_cases hplan : key = plan.deployment
  · subst hplan
    cases h with
    | step | retire => exact ⟨d, hd, rfl, rfl, rfl⟩
    | retireAlone current =>
        obtain rfl := Option.some.inj (hd.symm.trans current.deployment)
        exact ⟨_, update_self _ _ _, rfl, rfl, rfl⟩
    | cutOver => simp at hkey
  · exact ⟨d, (h.deployment_of_ne hplan).trans hd, rfl, rfl, rfl⟩

theorem deployed_of_cutOver (h : Effect plan now v .cutOver change w) :
    ∃ d, w.deployment plan.deployment = some d ∧ d.state = .deployed := by
  cases h with
  | cutOver => exact ⟨_, update_self _ _ _, rfl⟩

theorem app_of_ne_cutOver (h : Effect plan now v e change w) (hcut : e ≠ .cutOver) (key : Guid) :
    w.app key = v.app key := by
  cases h with
  | step | retire | retireAlone => rfl
  | cutOver => exact absurd rfl hcut

theorem app_of_ne (h : Effect plan now v e change w) {d : Deployment}
    (hd : v.deployment plan.deployment = some d) (hkey : key ≠ d.app) : w.app key = v.app key := by
  cases h with
  | step | retire | retireAlone => rfl
  | cutOver current =>
      obtain rfl := Option.some.inj (hd.symm.trans current.deployment)
      exact update_of_ne hkey _ _

theorem shape_of_ne (h : Effect plan now v e change w) (hold : key ≠ plan.old)
    (hnew : key ≠ plan.new) : w.shape key = v.shape key := by
  cases h with
  | step => simp [hold, hnew]
  | retire => simp [hold]
  | retireAlone => simp [hold]
  | cutOver => simp [hold, hnew]

theorem shape_of_cutOver (h : Effect plan now v .cutOver change w) :
    w.shape plan.new = (v.shape plan.new).map fun shape => { shape with kind := webKind } := by
  cases h with
  | cutOver current owner web none_left target => simp [Records.shape_of_process target]

theorem app_of_shape (h : Effect plan now v e change w) (hkey : key ≠ plan.old ∨ e ≠ .cutOver) :
    (w.shape key).map AppProcess.Shape.app = (v.shape key).map AppProcess.Shape.app := by
  by_cases hold : key = plan.old
  · subst hold
    cases h with
    | step current target =>
        simp [current.distinct, Records.shape_of_process current.old]
    | retire current => simp [Records.shape_of_process current.old]
    | retireAlone current => simp [Records.shape_of_process current.old]
    | cutOver => simp at hkey
  · by_cases hnew : key = plan.new
    · subst hnew
      cases h with
      | step current target => simp [Records.shape_of_process target]
      | retire current => simp [hold]
      | retireAlone current => simp [hold]
      | cutOver current owner web none_left target => simp [Records.shape_of_process target]
    · rw [h.shape_of_ne hold hnew]

theorem old_gone (h : Effect plan now v .cutOver change w) : w.process plan.old = none := by
  cases h with
  | cutOver current => simp [Plan.afterCutOver, current.distinct]

theorem process_before (h : Effect plan now v e change w) {q : AppProcess}
    (hq : w.process key = some q) : ∃ p, v.process key = some p ∧ p.app = q.app := by
  have hkey : key ≠ plan.old ∨ e ≠ .cutOver := by
    by_contra hcut
    obtain ⟨rfl, rfl⟩ : key = plan.old ∧ e = .cutOver := by
      simpa using hcut
    rw [h.old_gone] at hq
    cases hq
  exact Records.process_of_app_of_shape (h.app_of_shape hkey).symm hq

theorem process_after (h : Effect plan now v e change w) (hkey : key ≠ plan.old ∨ e ≠ .cutOver)
    {p : AppProcess} (hp : v.process key = some p) : ∃ q, w.process key = some q ∧ q.app = p.app :=
  Records.process_of_app_of_shape (h.app_of_shape hkey) hp

/-- Only a cut-over loses a process: the web process of the app, without instances. -/
theorem process_lost (h : Effect plan now v e change w) {p : AppProcess}
    (hp : v.process key = some p) (hlost : w.process key = none) :
    e = .cutOver ∧ key = plan.old ∧ p.instances = 0 ∧ (∃ n m, change = .cutOver n m) ∧
      ∃ d app, v.deployment plan.deployment = some d ∧ v.app d.app = some app ∧
        app.web = some key := by
  by_cases hkey : key ≠ plan.old ∨ e ≠ .cutOver
  · obtain ⟨q, hq, _⟩ := h.process_after hkey hp
    rw [hlost] at hq
    cases hq
  · obtain ⟨rfl, rfl⟩ : key = plan.old ∧ e = .cutOver := by
      simpa using hkey
    cases h with
    | @cutOver d app _ _ _ _ current owner web none_left =>
        obtain rfl := Option.some.inj (hp.symm.trans current.old)
        exact ⟨rfl, rfl, none_left, ⟨_, _, rfl⟩, d, app, current.deployment, owner, web⟩

theorem label_of_route (h : Effect plan now v e change w) (key : Guid) :
    (w.route key).map Route.label = (v.route key).map Route.label := by
  cases h with
  | step | retire | retireAlone => rfl
  | cutOver =>
      simp only [Plan.afterCutOver, Option.map_map]
      congr 1
      funext r
      simp

end Edit.Effect
end Rollout
