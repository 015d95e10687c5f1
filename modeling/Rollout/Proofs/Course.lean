import Rollout.Proofs.Turn

/-!
# The course of one rollout

From `size` old instances a rollout takes `size + 1` moves: a step for every old instance but the
last, the retirement of the last one, and the cut-over. The records say how many of them have been
made. Each move can only follow on the one before, and nobody else can make one.
-/

namespace Rollout

open Function (update update_self update_of_ne)

/-- A deployment that replaces one process of an app by another, with their counts at the start. -/
structure Course where
  deployment : Guid
  app : Guid
  old : Guid
  new : Guid
  size : Nat
  start : Nat
  distinct : old ≠ new

namespace Course

def plan (c : Course) : Plan := ⟨c.deployment, c.old, c.new⟩

/-- The change of each move. -/
inductive Due (c : Course) : Nat → Change → Prop where
  | step {k : Nat} {old new : UInt32} (left : old.toNat + (k + 1) = c.size) (some_left : old ≠ 0)
      (gained : new.toNat = c.start + (k + 1)) : Due c k (.stepped old new)
  | retire {k : Nat} {stopped : UInt32} (last : k + 1 = c.size) : Due c k (.retired stopped)
  | cutOver {k : Nat} {moved restarted : UInt32} (all_made : k = c.size) :
      Due c k (.cutOver moved restarted)

/-- The records when this many moves have been made and the deployment is under way. -/
structure UnderWay (c : Course) (v : Records) (k : Nat) : Prop where
  le : k ≤ c.size
  deployment : ∃ d, v.deployment c.deployment = some d ∧ d.state = .deploying ∧ d.app = c.app ∧
    d.webish = some c.new
  web : ∃ app, v.app c.app = some app ∧ app.web = some c.old
  old : ∃ old, v.shape c.old = some old ∧ old.app = c.app ∧ old.instances.toNat + k = c.size
  new : ∃ new, v.shape c.new = some new ∧ new.app = c.app ∧
    new.instances.toNat = c.start + min k (c.size - 1)

/-- The records when all moves have been made. -/
structure Over (c : Course) (v : Records) : Prop where
  deployment : ∃ d, v.deployment c.deployment = some d ∧ d.state = .deployed ∧ d.app = c.app ∧
    d.webish = none
  web : ∃ app, v.app c.app = some app ∧ app.web = some c.new
  old : v.process c.old = none
  new : ∃ new, v.shape c.new = some new ∧ new.app = c.app ∧ new.kind = webKind ∧
    new.instances.toNat = c.start + (c.size - 1)

/-- The records when this many moves have been made. -/
inductive At (c : Course) (v : Records) : Nat → Prop where
  | underWay {k : Nat} (h : c.UnderWay v k) : At c v k
  | ended (h : c.Over v) : At c v (c.size + 1)

/-- No deployment under way but this one is of the app or bound for one of the two processes, and
neither is the web process of another app. -/
structure Apart (c : Course) (v : Records) : Prop where
  deployment : ∀ key d, v.deployment key = some d → key ≠ c.deployment → d.state = .deploying →
    d.app ≠ c.app ∧ d.webish ≠ some c.old ∧ d.webish ≠ some c.new
  web : ∀ key app, v.app key = some app → key ≠ c.app →
    app.web ≠ some c.old ∧ app.web ≠ some c.new

variable {c : Course} {v w : Records} {k : Nat} {plan : Plan} {now : Time} {e : Edit}
  {change : Change}

theorem At.underWay_of_le (h : c.At v k) (hk : k ≤ c.size) : c.UnderWay v k := by
  cases h with
  | underWay h => exact h
  | ended => omega

theorem At.over_of_lt (h : c.At v k) (hk : c.size < k) : c.Over v := by
  cases h with
  | underWay h => exact absurd h.le (Nat.not_le_of_lt hk)
  | ended h => exact h

theorem At.app_of_deployment (h : c.At v k) {d : Deployment}
    (hd : v.deployment c.deployment = some d) : d.app = c.app := by
  cases h with
  | underWay h =>
      obtain ⟨d', hd', _, happ, _⟩ := h.deployment
      rw [← Option.some.inj (hd'.symm.trans hd), happ]
  | ended h =>
      obtain ⟨d', hd', _, happ, _⟩ := h.deployment
      rw [← Option.some.inj (hd'.symm.trans hd), happ]

theorem At.web_cases (h : c.At v k) {app : App} {web : Guid} (happ : v.app c.app = some app)
    (hweb : app.web = some web) : web = c.old ∨ web = c.new := by
  cases h with
  | underWay h =>
      obtain ⟨app', happ', hweb'⟩ := h.web
      rw [← Option.some.inj (happ'.symm.trans happ), hweb', Option.some.injEq] at hweb
      exact .inl hweb.symm
  | ended h =>
      obtain ⟨app', happ', hweb'⟩ := h.web
      rw [← Option.some.inj (happ'.symm.trans happ), hweb', Option.some.injEq] at hweb
      exact .inr hweb.symm

theorem At.webish_of_deploying (h : c.At v k) {d : Deployment}
    (hd : v.deployment c.deployment = some d) (hdeploying : d.state = .deploying) :
    d.webish = some c.new := by
  cases h with
  | underWay h =>
      obtain ⟨d', hd', _, _, hwebish⟩ := h.deployment
      rw [← Option.some.inj (hd'.symm.trans hd), hwebish]
  | ended h =>
      obtain ⟨d', hd', hdeployed, _⟩ := h.deployment
      rw [Option.some.inj (hd'.symm.trans hd), hdeploying] at hdeployed
      cases hdeployed

/-- A deployment as it is listed: this one with its app and its target, or one of another app. -/
def Listed (c : Course) (d : Deployment) : Prop :=
  d.guid = c.deployment ∧ d.app = c.app ∧ d.webish = some c.new ∨
    d.guid ≠ c.deployment ∧ d.app ≠ c.app

theorem listed_of_row (hat : c.At v k) (hapart : c.Apart v) {d : Deployment}
    (hrow : v.deployment d.guid = some d) (hdeploying : d.state = .deploying) : c.Listed d := by
  by_cases hown : d.guid = c.deployment
  · rw [hown] at hrow
    exact .inl ⟨hown, hat.app_of_deployment hrow, hat.webish_of_deploying hrow hdeploying⟩
  · exact .inr ⟨hown, (hapart.deployment _ d hrow hown hdeploying).1⟩

theorem listed_of_mem_agenda {s : Store} (hs : s.Keyed) (hat : c.At s.records k)
    (hapart : c.Apart s.records) {ds : List Deployment} (hds : Cycle.agenda s = .ok ds) :
    ∀ d ∈ ds, c.Listed d := by
  obtain ⟨ds', hds', hmem, _⟩ := Cycle.agenda_ok hs
  obtain rfl := Except.ok.inj (hds.symm.trans hds')
  intro d hd
  obtain ⟨hrow, hdeploying⟩ := (hmem d).mp hd
  exact listed_of_row hat hapart hrow hdeploying

theorem At.underWay_of_current (h : c.At v k) {d : Deployment} {old : AppProcess}
    (current : c.plan.Current v d old) : c.UnderWay v k := by
  cases h with
  | underWay h => exact h
  | ended h =>
      obtain ⟨d', hd', hdeployed, _⟩ := h.deployment
      rw [Option.some.inj (hd'.symm.trans current.deployment), current.deploying] at hdeployed
      cases hdeployed

/-- Whatever is committed, this deployment's own edits included, keeps the others apart. -/
theorem Apart.effect (h : c.Apart v)
    (happ : ∀ d, v.deployment c.deployment = some d → d.app = c.app)
    (heffect : Edit.Effect plan now v e change w) : c.Apart w where
  deployment key d hd hkey hdeploying := by
    obtain ⟨before, hbefore, hstate, hsame, hwebish⟩ := heffect.underWay_before hd hdeploying
    rw [← hsame, ← hwebish]
    exact h.deployment key before hbefore hkey hstate
  web key app ha hkey := by
    cases heffect with
    | step | retire | retireAlone => exact h.web key app ha hkey
    | @cutOver d _ _ _ _ _ current owner web _ target =>
        by_cases hplan : key = d.app
        · rw [hplan, Plan.app_afterCutOver, update_self, Option.some.injEq] at ha
          subst ha
          have hother : plan.deployment ≠ c.deployment := by
            intro heq
            exact hkey (hplan.trans (happ d (heq ▸ current.deployment)))
          have hapart := h.deployment _ d current.deployment hother current.deploying
          rw [current.webish] at hapart
          exact hapart.2
        · rw [Plan.app_afterCutOver, update_of_ne hplan] at ha
          exact h.web key app ha hkey

/-- An edit of another deployment, away from the two processes, makes no move. -/
theorem At.effect_of_ne (h : c.At v k) (hapart : c.Apart v)
    (heffect : Edit.Effect plan now v e change w) (hdeployment : plan.deployment ≠ c.deployment)
    (hold : plan.old ≠ c.old) (hnew : plan.old ≠ c.new) : c.At w k := by
  obtain ⟨d, old, current⟩ := heffect.current
  obtain ⟨happ, hwebishOld, hwebishNew⟩ :=
    hapart.deployment _ d current.deployment hdeployment current.deploying
  rw [current.webish, Ne, Option.some.injEq] at hwebishOld hwebishNew
  have hrow := heffect.deployment_of_ne hdeployment.symm
  have hweb := heffect.app_of_ne current.deployment happ.symm
  have holdShape := heffect.shape_of_ne hold.symm (Ne.symm hwebishOld)
  have hnewShape := heffect.shape_of_ne hnew.symm (Ne.symm hwebishNew)
  cases h with
  | underWay h =>
      refine .underWay ⟨h.le, ?_, ?_, ?_, ?_⟩
      · rw [hrow]
        exact h.deployment
      · rw [hweb]
        exact h.web
      · rw [holdShape]
        exact h.old
      · rw [hnewShape]
        exact h.new
  | ended h =>
      refine .ended ⟨?_, ?_, ?_, ?_⟩
      · rw [hrow]
        exact h.deployment
      · rw [hweb]
        exact h.web
      · exact Records.shape_eq_none.mp (holdShape.trans (Records.shape_eq_none.mpr h.old))
      · rw [hnewShape]
        exact h.new

private theorem toNat_sub_one {n : UInt32} (h : 2 ≤ n.toNat) : (n - 1).toNat + 1 = n.toNat := by
  have hle : (1 : UInt32) ≤ n := by
    rw [UInt32.le_iff_toNat_le]
    exact Nat.le_of_succ_le h
  rw [UInt32.toNat_sub_of_le n 1 hle, UInt32.toNat_one]
  omega

private theorem toNat_add_one {n : UInt32} (h : n.toNat + 1 < UInt32.size) :
    (n + 1).toNat = n.toNat + 1 := by
  rw [UInt32.toNat_add, UInt32.toNat_one, Nat.mod_eq_of_lt h]

variable {d : Deployment} {old new : AppProcess}

theorem UnderWay.count_old (h : c.UnderWay v k) (hold : v.process c.old = some old) :
    old.app = c.app ∧ old.instances.toNat + k = c.size := by
  obtain ⟨shape, hshape, happ, hcount⟩ := h.old
  obtain rfl := Option.some.inj (hshape.symm.trans (Records.shape_of_process hold))
  exact ⟨happ, hcount⟩

theorem UnderWay.count_new (h : c.UnderWay v k) (hnew : v.process c.new = some new) :
    new.app = c.app ∧ new.instances.toNat = c.start + min k (c.size - 1) := by
  obtain ⟨shape, hshape, happ, hcount⟩ := h.new
  obtain rfl := Option.some.inj (hshape.symm.trans (Records.shape_of_process hnew))
  exact ⟨happ, hcount⟩

private theorem UnderWay.step (h : c.UnderWay v k) (hold : v.process c.old = some old)
    (hnew : v.process c.new = some new) (htwo : 2 ≤ old.instances.toNat)
    (room : new.instances.toNat + 1 < UInt32.size) :
    c.Due k (.stepped (old.instances - 1) (new.instances + 1)) ∧
      c.UnderWay (c.plan.afterStep now old new v) (k + 1) := by
  obtain ⟨holdApp, holdCount⟩ := h.count_old hold
  obtain ⟨hnewApp, hnewCount⟩ := h.count_new hnew
  have hlost : (old.instances - 1).toNat + (k + 1) = c.size := by
    have hone := toNat_sub_one htwo
    omega
  have hgained : (new.instances + 1).toNat = c.start + (k + 1) := by
    have hone := toNat_add_one room
    omega
  have hleft : old.instances - 1 ≠ 0 := by
    have hone := toNat_sub_one htwo
    intro hzero
    rw [hzero, UInt32.toNat_zero] at hone
    omega
  refine ⟨.step hlost hleft hgained, by omega, h.deployment, h.web, ?_, ?_⟩
  · refine ⟨{ old.shape with instances := old.instances - 1 }, ?_, holdApp, hlost⟩
    simp [plan, c.distinct]
  · refine ⟨{ new.shape with instances := new.instances + 1 }, ?_, hnewApp, ?_⟩
    · simp [plan]
    · rw [hgained]
      omega

private theorem UnderWay.retire (h : c.UnderWay v k) (hold : v.process c.old = some old)
    (last : old.instances = 1) (hshape : w.shape =
      update v.shape c.old (some { old.shape with instances := 0 }))
    (hdeployment : ∃ d, w.deployment c.deployment = some d ∧ d.state = .deploying ∧
      d.app = c.app ∧ d.webish = some c.new)
    (happ : w.app = v.app) : k + 1 = c.size ∧ c.UnderWay w (k + 1) := by
  obtain ⟨holdApp, holdCount⟩ := h.count_old hold
  obtain ⟨new, hnew, hnewApp, hnewCount⟩ := h.new
  have hlast : k + 1 = c.size := by
    rw [last, UInt32.toNat_one] at holdCount
    omega
  refine ⟨hlast, by omega, hdeployment, happ ▸ h.web, ?_, ?_⟩
  · refine ⟨{ old.shape with instances := 0 }, ?_, holdApp, ?_⟩
    · rw [hshape, update_self]
    · rw [UInt32.toNat_zero]
      omega
  · refine ⟨new, ?_, hnewApp, by omega⟩
    rw [hshape, update_of_ne c.distinct.symm, hnew]

private theorem UnderWay.cutOver {app : App} (h : c.UnderWay v k)
    (current : c.plan.Current v d old) (hold : old.instances = 0)
    (hnew : v.process c.new = some new) :
    k = c.size ∧ c.Over (c.plan.afterCutOver now d app new v) := by
  obtain ⟨_, holdCount⟩ := h.count_old current.old
  obtain ⟨hnewApp, hnewCount⟩ := h.count_new hnew
  obtain ⟨d', hd', _, happ, _⟩ := h.deployment
  obtain rfl := Option.some.inj (hd'.symm.trans current.deployment)
  have hsize : k = c.size := by
    rw [hold, UInt32.toNat_zero] at holdCount
    omega
  refine ⟨hsize, ?_, ?_, ?_, ?_⟩
  · exact ⟨_, update_self _ _ _, rfl, happ, rfl⟩
  · refine ⟨{ app with web := some c.new, updatedAt := now }, ?_, rfl⟩
    rw [Plan.app_afterCutOver, ← happ]
    exact update_self _ _ _
  · rw [← Records.shape_eq_none, Plan.shape_afterCutOver]
    simp [plan, c.distinct]
  · refine ⟨{ new.shape with kind := webKind }, ?_, hnewApp, rfl, ?_⟩
    · simp [plan]
    · change new.instances.toNat = c.start + (c.size - 1)
      omega

/-- An edit of the deployment itself makes the move that is due, and no other. -/
theorem At.effect_own (h : c.At v k) (heffect : Edit.Effect c.plan now v e change w)
    (hphase : ∀ expectedOld expectedNew, e = .step expectedOld expectedNew → 2 ≤ expectedOld.toNat) :
    c.Due k change ∧ c.At w (k + 1) := by
  obtain ⟨_, _, hcurrent⟩ := heffect.current
  have hunder := h.underWay_of_current hcurrent
  cases heffect with
  | step current target left room =>
      obtain ⟨hdue, hnext⟩ := hunder.step current.old target (hphase _ _ rfl) room
      exact ⟨hdue, .underWay hnext⟩
  | @retire _ old current last =>
      obtain ⟨hdue, hnext⟩ := hunder.retire (w := c.plan.afterRetirement now old v) current.old last
        Plan.shape_afterRetirement hunder.deployment rfl
      exact ⟨.retire hdue, .underWay hnext⟩
  | @retireAlone d old siblings current last =>
      obtain ⟨d', hd', _, happ, _⟩ := hunder.deployment
      obtain rfl := Option.some.inj (hd'.symm.trans current.deployment)
      obtain ⟨hdue, hnext⟩ := hunder.retire (w := c.plan.afterLoneRetirement now d' old siblings v)
        current.old last Plan.shape_afterLoneRetirement
        ⟨_, update_self _ _ _, current.deploying, happ, current.webish⟩ rfl
      exact ⟨.retire hdue, .underWay hnext⟩
  | cutOver current owner web none_left target =>
      obtain ⟨rfl, hnext⟩ := hunder.cutOver current none_left target
      exact ⟨.cutOver rfl, .ended hnext⟩

end Course

namespace Sample

def course (old new : UInt32) : Course where
  deployment := "rollout"
  app := "shop"
  old := "shop-1"
  new := "shop-2"
  size := old.toNat
  start := new.toNat
  distinct := by decide

theorem at_store (old new : UInt32) : (course old new).At (store old new).records 0 := by
  have hold : (store old new).records.process "shop-1" = some (web old) := by
    simp [records_store]
  have hnew : (store old new).records.process "shop-2" = some (webish new) := by
    simp [records_store]
  refine .underWay ⟨Nat.zero_le _, ⟨deployment, ?_, rfl, rfl, rfl⟩, ⟨app, ?_, rfl⟩,
    ⟨_, Records.shape_of_process hold, rfl, rfl⟩, ⟨_, Records.shape_of_process hnew, rfl, ?_⟩⟩
  · simp [records_store, course]
  · simp [records_store, course]
  · change new.toNat = new.toNat + min 0 (old.toNat - 1)
    omega

theorem apart_store (old new : UInt32) : (course old new).Apart (store old new).records := by
  rw [records_store]
  constructor
  · intro key d hd hkey
    change key ≠ "rollout" at hkey
    simp [hkey] at hd
  · intro key app happ hkey
    change key ≠ "shop" at hkey
    simp [hkey] at happ

end Sample
end Rollout
