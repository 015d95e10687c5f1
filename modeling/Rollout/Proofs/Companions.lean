import Rollout.Proofs.Fleet
import Rollout.Proofs.Ownership.Apps

/-!
# Companions

An app may have processes besides the two that its rollout replaces one by the other. The rollout
leaves these companions as they were. A retirement may stop those that run, and then the deployment
remembers exactly these; the cut-over starts them again.
-/

namespace Rollout

/-- A rollout as its companions see it: what it named when it started, and the companions then. -/
structure Companions where
  deployment : Guid
  app : Guid
  web : Option Guid
  webish : Option Guid
  process : Guid → Option AppProcess

namespace Companions

/-- The companions of a deployment: the processes of its app that are neither the web process nor
the webish process. -/
def of (v : Records) (d : Deployment) : Companions where
  deployment := d.guid
  app := d.app
  web := (v.app d.app).bind App.web
  webish := d.webish
  process key := (v.process key).filter fun p =>
    p.app = d.app ∧ (v.app d.app).bind App.web ≠ some key ∧ d.webish ≠ some key

/-- What has become of the companion under a key: it still is in its first state and not on the
list, or it was running, is stopped and is on the list. -/
structure Since (stopped : List Guid) (key : Guid) (before now : AppProcess) : Prop where
  same : now = { before with state := now.state, updatedAt := now.updatedAt }
  state : now.state = before.state ∧ key ∉ stopped ∨
    before.state = .started ∧ now.state = .stopped ∧ key ∈ stopped

/-- While the deployment is under way, its list holds the companions that it has stopped, each once
and nothing else. -/
structure UnderWay (c : Companions) (v : Records) (d : Deployment) : Prop where
  deployment : v.deployment c.deployment = some d
  deploying : d.state = .deploying
  app : d.app = c.app
  webish : d.webish = c.webish
  since : ∀ key before, c.process key = some before →
    ∃ now, v.process key = some now ∧ Since d.stopped key before now
  nodup : d.stopped.Nodup
  listed : ∀ key ∈ d.stopped, ∃ before, c.process key = some before

/-- When it is over, the companions are as before, but for the times of their last update. -/
structure Over (c : Companions) (v : Records) (d : Deployment) : Prop where
  deployment : v.deployment c.deployment = some d
  deployed : d.state = .deployed
  stopped : d.stopped = []
  restored : ∀ key before, c.process key = some before →
    ∃ now, v.process key = some now ∧ now = { before with updatedAt := now.updatedAt }

/-- Companions and owners agree: the companions are the processes of the app but for two. -/
structure OwnedBy (c : Companions) (o : Owners Guid) : Prop where
  app : ∀ key, o.app key = key
  deployment : o.deployment c.deployment = c.app
  process : ∀ key p, c.process key = some p →
    o.process key = some c.app ∧ c.web ≠ some key ∧ c.webish ≠ some key
  all : ∀ key, o.process key = some c.app → c.web ≠ some key → c.webish ≠ some key →
    ∃ p, c.process key = some p

theorem ownedBy_of {v : Records} {d : Deployment} (hd : v.deployment d.guid = some d) :
    (of v d).OwnedBy v.owners where
  app _ := rfl
  deployment := by
    change ((v.deployment d.guid).map Deployment.app).getD d.guid = d.app
    rw [hd]
    rfl
  process key p hp := by
    obtain ⟨hrow, hkept⟩ := Option.filter_eq_some_iff.mp hp
    obtain ⟨happ, hweb, hwebish⟩ := of_decide_eq_true hkept
    refine ⟨?_, hweb, hwebish⟩
    change (v.process key).map AppProcess.app = some d.app
    rw [hrow, Option.map_some, happ]
  all key howner hweb hwebish := by
    obtain ⟨p, hp, happ⟩ := Option.map_eq_some_iff.mp howner
    exact ⟨p, Option.filter_eq_some_iff.mpr ⟨hp, decide_eq_true ⟨happ, hweb, hwebish⟩⟩⟩

open Function (update update_self update_of_ne)

/-- A plan of this deployment, for its first web process and its webish process. -/
structure Own (c : Companions) (plan : Plan) : Prop where
  deployment : plan.deployment = c.deployment
  web : c.web = some plan.old
  webish : c.webish = some plan.new

section Effect

variable {c : Companions} {o : Owners Guid} {v w : Records} {d : Deployment} {plan : Plan}
  {now : Time} {e : Edit} {change : Change} {key : Guid} {before p : AppProcess}

theorem OwnedBy.ne_of_own (howned : c.OwnedBy o) (hown : c.Own plan)
    (hbefore : c.process key = some before) : key ≠ plan.old ∧ key ≠ plan.new := by
  obtain ⟨_, hweb, hwebish⟩ := howned.process key before hbefore
  rw [hown.web, Ne, Option.some.injEq] at hweb
  rw [hown.webish, Ne, Option.some.injEq] at hwebish
  exact ⟨Ne.symm hweb, Ne.symm hwebish⟩

private theorem Since.stop {stopped siblings : List Guid} {app : Guid}
    (h : Since stopped key before p) (hsiblings : key ∈ siblings ↔ plan.isSibling app p = true) :
    Since (stopped ++ siblings) key before (plan.stopSibling now app p) := by
  rw [Plan.stopSibling]
  by_cases hsibling : plan.isSibling app p = true
  · have hlisted : key ∈ stopped ++ siblings :=
      List.mem_append_right stopped (hsiblings.mpr hsibling)
    have hrunning : p.state = .started := (plan.isSibling_iff.mp hsibling).2.2.2
    have hstarted : before.state = .started := by
      rcases h.state with ⟨hsame, _⟩ | ⟨hstarted, _⟩
      · exact hsame.symm.trans hrunning
      · exact hstarted
    rw [if_pos hsibling]
    refine ⟨?_, .inr ⟨hstarted, rfl, hlisted⟩⟩
    rw [h.same, Plan.stopped]
  · have hfree : key ∉ siblings := mt hsiblings.mp hsibling
    rw [if_neg hsibling]
    refine ⟨h.same, ?_⟩
    rcases h.state with ⟨hsame, hnot⟩ | ⟨hstarted, hstopped, hlisted⟩
    · refine .inl ⟨hsame, ?_⟩
      rw [List.mem_append, not_or]
      exact ⟨hnot, hfree⟩
    · exact .inr ⟨hstarted, hstopped, List.mem_append_left siblings hlisted⟩

private theorem Since.again {stopped : List Guid} (h : Since stopped key before p)
    (hguid : p.guid = key) (now : Time) :
    ∃ time, Plan.startAgain now stopped p = { before with updatedAt := time } := by
  rw [Plan.startAgain]
  rcases h.state with ⟨hsame, hfree⟩ | ⟨hstarted, hstopped, hlisted⟩
  · have hsame' := h.same
    rw [hsame] at hsame'
    rw [← hguid] at hfree
    rw [if_neg fun hagain => hfree hagain.1]
    exact ⟨p.updatedAt, hsame'⟩
  · rw [← hguid] at hlisted
    refine ⟨now, ?_⟩
    rw [if_pos ⟨hlisted, hstopped⟩, h.same]
    simp only [hstarted]

private theorem UnderWay.of_process_eq (h : c.UnderWay v d)
    (hdeployment : w.deployment c.deployment = v.deployment c.deployment)
    (hprocess : ∀ key before, c.process key = some before → w.process key = v.process key) :
    c.UnderWay w d where
  deployment := hdeployment.trans h.deployment
  deploying := h.deploying
  app := h.app
  webish := h.webish
  since key before hbefore := by
    rw [hprocess key before hbefore]
    exact h.since key before hbefore
  nodup := h.nodup
  listed := h.listed

private theorem Over.of_process_eq (h : c.Over v d)
    (hdeployment : w.deployment c.deployment = v.deployment c.deployment)
    (hprocess : ∀ key before, c.process key = some before → w.process key = v.process key) :
    c.Over w d where
  deployment := hdeployment.trans h.deployment
  deployed := h.deployed
  stopped := h.stopped
  restored key before hbefore := by
    rw [hprocess key before hbefore]
    exact h.restored key before hbefore

variable (hguid : ∀ key p, v.process key = some p → p.guid = key)

include hguid in
private theorem UnderWay.retireAlone (h : c.UnderWay v d) (howned : c.OwnedBy o)
    (howner : ∀ key p, v.process key = some p → p.app = c.app → o.process key = some c.app)
    (hown : c.Own plan) {old : AppProcess} {siblings : List AppProcess}
    (hsorted : (siblings.map AppProcess.guid).Pairwise (· < ·))
    (hsiblings : ∀ p, p ∈ siblings ↔ v.process p.guid = some p ∧ plan.isSibling d.app p = true) :
    c.UnderWay (plan.afterLoneRetirement now d old siblings v)
      { d with stopped := d.stopped ++ siblings.map AppProcess.guid, updatedAt := now } where
  deployment := by
    rw [Plan.deployment_afterLoneRetirement, hown.deployment, update_self]
  deploying := h.deploying
  app := h.app
  webish := h.webish
  since key before hbefore := by
    obtain ⟨hnotOld, _⟩ := howned.ne_of_own hown hbefore
    obtain ⟨p, hp, hsince⟩ := h.since key before hbefore
    have hprocess : (plan.afterLoneRetirement now d old siblings v).process key =
        some (plan.stopSibling now d.app p) := by
      simp [Plan.afterLoneRetirement, Plan.afterRetirement, hnotOld, hp]
    obtain rfl := hguid key p hp
    have hmem : p.guid ∈ siblings.map AppProcess.guid ↔ plan.isSibling d.app p = true := by
      constructor
      · intro hmem
        obtain ⟨q, hq, hqguid⟩ := List.mem_map.mp hmem
        obtain ⟨hrow, hsibling⟩ := (hsiblings q).mp hq
        rw [hqguid, hp, Option.some.injEq] at hrow
        rw [hrow]
        exact hsibling
      · intro hsibling
        exact List.mem_map_of_mem ((hsiblings p).mpr ⟨hp, hsibling⟩)
    exact ⟨_, hprocess, hsince.stop hmem⟩
  nodup := by
    refine List.nodup_append.mpr ⟨h.nodup, hsorted.nodup, ?_⟩
    -- A companion on the list is stopped, and the siblings are running.
    rintro key hlisted _ hmem rfl
    obtain ⟨before, hbefore⟩ := h.listed key hlisted
    obtain ⟨p, hp, hsince⟩ := h.since key before hbefore
    obtain ⟨q, hq, rfl⟩ := List.mem_map.mp hmem
    obtain ⟨hrow, hsibling⟩ := (hsiblings q).mp hq
    obtain rfl := Option.some.inj (hp.symm.trans hrow)
    have hrunning : p.state = .started := (plan.isSibling_iff.mp hsibling).2.2.2
    rcases hsince.state with ⟨_, hfree⟩ | ⟨_, hstopped, _⟩
    · exact hfree hlisted
    · rw [hrunning] at hstopped
      cases hstopped
  listed key hkey := by
    rcases List.mem_append.mp hkey with hkey | hkey
    · exact h.listed key hkey
    · obtain ⟨q, hq, rfl⟩ := List.mem_map.mp hkey
      obtain ⟨hrow, hsibling⟩ := (hsiblings q).mp hq
      obtain ⟨happ, hnotOld, hnotNew, _⟩ := plan.isSibling_iff.mp hsibling
      refine howned.all q.guid (howner q.guid q hrow (happ.trans h.app)) ?_ ?_
      · rw [hown.web, Ne, Option.some.injEq]
        exact Ne.symm hnotOld
      · rw [hown.webish, Ne, Option.some.injEq]
        exact Ne.symm hnotNew

include hguid in
private theorem UnderWay.cutOver (h : c.UnderWay v d) (howned : c.OwnedBy o) (hown : c.Own plan)
    {app : App} {new : AppProcess} :
    c.Over (plan.afterCutOver now d app new v)
      { d with state := .deployed, webish := none, stopped := [], updatedAt := now } where
  deployment := by
    rw [Plan.deployment_afterCutOver, hown.deployment, update_self]
  deployed := rfl
  stopped := rfl
  restored key before hbefore := by
    obtain ⟨hnotOld, hnotNew⟩ := howned.ne_of_own hown hbefore
    obtain ⟨p, hp, hsince⟩ := h.since key before hbefore
    obtain ⟨time, hagain⟩ := hsince.again (hguid key p hp) now
    refine ⟨{ before with updatedAt := time }, ?_, rfl⟩
    rw [← hagain]
    simp [Plan.afterCutOver, hnotOld, hnotNew, hp]

include hguid in
/-- An edit of the deployment itself keeps account of the companions. -/
private theorem UnderWay.effect (h : c.UnderWay v d) (howned : c.OwnedBy o)
    (howner : ∀ key p, v.process key = some p → p.app = c.app → o.process key = some c.app)
    (hown : c.Own plan) (heffect : Edit.Effect plan now v e change w) :
    ∃ d', c.UnderWay w d' ∨ c.Over w d' := by
  have hrow : v.deployment plan.deployment = some d := by
    rw [hown.deployment]
    exact h.deployment
  cases heffect with
  | step =>
      refine ⟨d, .inl (h.of_process_eq rfl ?_)⟩
      intro key before hbefore
      obtain ⟨hnotOld, hnotNew⟩ := howned.ne_of_own hown hbefore
      simp [Plan.afterStep, hnotOld, hnotNew]
  | retire =>
      refine ⟨d, .inl (h.of_process_eq rfl ?_)⟩
      intro key before hbefore
      simp [Plan.afterRetirement, (howned.ne_of_own hown hbefore).1]
  | retireAlone current last sorted mem_siblings =>
      obtain rfl := Option.some.inj (hrow.symm.trans current.deployment)
      exact ⟨_, .inl (h.retireAlone hguid howned howner hown sorted mem_siblings)⟩
  | cutOver current =>
      obtain rfl := Option.some.inj (hrow.symm.trans current.deployment)
      exact ⟨_, .inr (h.cutOver hguid howned hown)⟩

/-- The web process of the app is the first one until the cut-over, and the webish process then. -/
private theorem pointer_effect (hrow : v.deployment plan.deployment = some d)
    (happ : d.app = c.app) (hwebish : c.webish = some plan.new)
    (h : ∀ app web, v.app c.app = some app → app.web = some web →
      c.web = some web ∨ c.webish = some web)
    (heffect : Edit.Effect plan now v e change w) {app : App} {web : Guid}
    (hfound : w.app c.app = some app) (hweb : app.web = some web) :
    c.web = some web ∨ c.webish = some web := by
  cases heffect with
  | step | retire | retireAlone => exact h app web hfound hweb
  | cutOver current =>
      obtain rfl := Option.some.inj (hrow.symm.trans current.deployment)
      rw [Plan.app_afterCutOver, happ, update_self, Option.some.injEq] at hfound
      rw [← hfound, Option.some.injEq] at hweb
      rw [← hweb]
      exact .inr hwebish

end Effect

section Run

variable (c : Companions) (o : Owners Guid)

/-- What holds of the store at every moment. -/
structure Safe (s : Store) : Prop where
  keyed : s.Keyed
  divided : s.Divided o
  only : ∀ key d, s.records.deployment key = some d → d.state = .deploying → d.app = c.app →
    key = c.deployment
  pointer : ∀ app web, s.records.app c.app = some app → app.web = some web →
    c.web = some web ∨ c.webish = some web
  phase : ∃ d, c.UnderWay s.records d ∨ c.Over s.records d

/-- A deployment as it is listed: this one, bound for its webish process, or one of another app. -/
def Listed (d : Deployment) : Prop :=
  o.Deploys (o.deployment d.guid) d ∧
    (d.guid = c.deployment ∧ d.app = c.app ∧ d.webish = c.webish ∨
      d.guid ≠ c.deployment ∧ d.app ≠ c.app)

/-- What a turn of this deployment holds in hand: its first web process and its webish process,
though the web process may be the webish one by now. -/
def InHand : Turn → Prop
  | .readApp | .ended _ => True
  | .readOld web => c.web = some web ∨ c.webish = some web
  | .readNew old webish => c.web = some old.guid ∧ c.webish = some webish
  | .ask pair | .commit pair => c.web = some pair.old.guid ∧ c.webish = some pair.new.guid

def Hand (d : Deployment) (turn : Turn) : Prop :=
  o.InHand (o.deployment d.guid) d turn ∧ (d.guid = c.deployment → c.InHand turn)

variable {c o} {s s' : Store} {d : Deployment}

theorem Safe.listed_of_mem_agenda (h : c.Safe o s) {ds : List Deployment}
    (hds : Cycle.agenda s = .ok ds) : ∀ d ∈ ds, c.Listed o d := by
  intro d hd
  refine ⟨Cycle.deploys_of_mem_agenda h.divided hds hd, ?_⟩
  obtain ⟨ds', hds', hmem, _⟩ := Cycle.agenda_ok h.keyed
  obtain rfl := Except.ok.inj (hds.symm.trans hds')
  obtain ⟨hrow, hdeploying⟩ := (hmem d).mp hd
  by_cases hown : d.guid = c.deployment
  · rw [hown] at hrow
    obtain ⟨row, hunder | hover⟩ := h.phase
    · obtain rfl := Option.some.inj (hrow.symm.trans hunder.deployment)
      exact .inl ⟨hown, hunder.app, hunder.webish⟩
    · obtain rfl := Option.some.inj (hrow.symm.trans hover.deployment)
      rw [hover.deployed] at hdeploying
      cases hdeploying
  · exact .inr ⟨hown, fun happ => hown (h.only d.guid d hrow hdeploying happ)⟩

theorem inHand_step (h : c.Safe o s) (happ : d.app = c.app) (hwebish : d.webish = c.webish)
    {turn : Turn} (hturn : c.InHand turn) (stopOthers : Bool) (now : Time) (answer : Answer) :
    c.InHand (turn.step stopOthers now d answer s).1 := by
  have hnext := Turn.next_step stopOthers now d answer turn s
  generalize (turn.step stopOthers now d answer s).1 = next at hnext ⊢
  cases hnext with
  | ended r => trivial
  | web hweb =>
      obtain ⟨app, hrow, hfound⟩ := (Turn.webOf_ok h.keyed).mp hweb
      rw [happ] at hrow
      exact h.pointer app _ hrow hfound
  | @old web webish old hold hbound =>
      have hguid := h.keyed.guid_process ((Turn.processAt_ok h.keyed).mp hold)
      obtain ⟨hfound, hne⟩ := Turn.webishOf_ok.mp hbound
      have hother : c.webish ≠ some web := by
        rw [← hwebish, hfound, Ne, Option.some.injEq, ← hguid]
        exact hne
      simp only [InHand] at hturn ⊢
      rw [hguid, ← hwebish]
      exact ⟨hturn.resolve_right hother, hfound⟩
  | new hnew =>
      have hguid := h.keyed.guid_process ((Turn.processAt_ok h.keyed).mp hnew)
      simp only [InHand] at hturn ⊢
      rw [hguid]
      exact hturn
  | ready => exact hturn

theorem Safe.owner_of_process (h : c.Safe o s) (howned : c.OwnedBy o) {key : Guid}
    {p : AppProcess} (hp : s.records.process key = some p) (happ : p.app = c.app) :
    o.process key = some c.app := by
  obtain ⟨x, howner, _, hx⟩ := h.divided.processes.belongs key p hp
  rw [howned.app, happ] at hx
  rw [hx]
  exact howner

private theorem Safe.commit_other (h : c.Safe o s) (howned : c.OwnedBy o) (hkeyed : s'.Keyed)
    (hdivided : s'.Divided o) (hsame : Store.Same o c.app s s')
    (honly : ∀ key d, s'.records.deployment key = some d → d.state = .deploying → d.app = c.app →
      key = c.deployment) : c.Safe o s' where
  keyed := hkeyed
  divided := hdivided
  only := honly
  pointer app web happ hweb := by
    have hrow : s.records.app c.app = s'.records.app c.app :=
      hsame.record_eq (congrArg some (howned.app c.app))
    exact h.pointer app web (hrow.trans happ) hweb
  phase := by
    have hdeployment : s'.records.deployment c.deployment = s.records.deployment c.deployment :=
      (hsame.record_eq (congrArg some howned.deployment)).symm
    have hprocess : ∀ key before, c.process key = some before →
        s'.records.process key = s.records.process key := by
      intro key before hbefore
      exact (hsame.record_eq (howned.process key before hbefore).1).symm
    obtain ⟨d, hunder | hover⟩ := h.phase
    · exact ⟨d, .inl (hunder.of_process_eq hdeployment hprocess)⟩
    · exact ⟨d, .inr (hover.of_process_eq hdeployment hprocess)⟩

private theorem Safe.commit_own (h : c.Safe o s) (howned : c.OwnedBy o) (hkeyed : s'.Keyed)
    (hdivided : s'.Divided o)
    (honly : ∀ key d, s'.records.deployment key = some d → d.state = .deploying → d.app = c.app →
      key = c.deployment) {plan : Plan} {now : Time} {e : Edit} {change : Change}
    (heffect : Edit.Effect plan now s.records e change s'.records)
    (hown : c.Own plan) : c.Safe o s' := by
  obtain ⟨row, _, current⟩ := heffect.current
  obtain ⟨d, hunder | hover⟩ := h.phase
  · have hrow : s.records.deployment plan.deployment = some d := by
      rw [hown.deployment]
      exact hunder.deployment
    refine ⟨hkeyed, hdivided, honly, ?_, ?_⟩
    · intro app web
      exact pointer_effect hrow hunder.app hown.webish h.pointer heffect
    · exact hunder.effect (fun _ _ => h.keyed.guid_process) howned
        (fun _ _ => h.owner_of_process howned) hown heffect
  · have hstate := current.deploying
    have hfound := current.deployment
    rw [hown.deployment, hover.deployment, Option.some.injEq] at hfound
    rw [← hfound, hover.deployed] at hstate
    cases hstate

theorem Safe.commit (h : c.Safe o s) (howned : c.OwnedBy o) (hlisted : c.Listed o d) {pair : Pair}
    (hhand : c.Hand o d (.commit pair)) {stopOthers : Bool} {now : Time} {change : Change}
    (happly : (pair.edit stopOthers).apply (pair.plan d) now s = (.ok change, s')) :
    c.Safe o s' := by
  obtain ⟨hplans, hhand⟩ := hhand
  obtain ⟨hdeploys, hcases⟩ := hlisted
  obtain ⟨hkeyed, heffect⟩ := Edit.effect_of_apply h.keyed happly
  have hwithin := Edit.within_apply h.divided hplans (pair.edit stopOthers) now
  rw [happly] at hwithin
  have honly : ∀ key d, s'.records.deployment key = some d → d.state = .deploying →
      d.app = c.app → key = c.deployment := by
    intro key d' hd' hdeploying happ
    obtain ⟨before, hbefore, hstate, hsame, _⟩ := heffect.underWay_before hd' hdeploying
    exact h.only key before hbefore hstate (hsame.trans happ)
  rcases hcases with ⟨hguid, happ, hbound⟩ | ⟨hguid, happ⟩
  · obtain ⟨hweb, hwebish⟩ := hhand hguid
    exact h.commit_own howned hkeyed hwithin.divided honly heffect ⟨hguid, hweb, hwebish⟩
  · have hother : c.app ≠ o.deployment d.guid := by
      have hx := hdeploys.app
      rw [howned.app] at hx
      rw [← hx]
      exact Ne.symm happ
    exact h.commit_other howned hkeyed hwithin.divided (hwithin.rest c.app hother) honly

/-- What holds of a fleet at every moment. -/
structure Kept (c : Companions) (o : Owners Guid) (f : Fleet) : Prop where
  safe : c.Safe o f.store
  replica : ∀ i, (f.replica i).Holds (c.Listed o) (c.Hand o)

theorem Kept.step {f : Fleet} (h : c.Kept o f) (howned : c.OwnedBy o) (stopOthers : Nat → Bool)
    (m : Move) : c.Kept o (f.step stopOthers m) where
  safe := by
    rw [Fleet.store_step]
    rcases (f.replica m.replica).step_commit (stopOthers m.replica) m.now m.answer f.store with
      hsame | ⟨d, pair, rest, change, s', hbusy, hcommit, happly⟩
    · rw [hsame]
      exact h.safe
    · have hholds := h.replica m.replica
      rw [hbusy] at hholds
      obtain ⟨hlisted, hhand, _⟩ := hholds
      rw [hcommit]
      exact h.safe.commit howned hlisted hhand happly
  replica i := by
    rw [Fleet.replica_step]
    by_cases hi : i = m.replica
    · rw [hi, update_self]
      refine Replica.holds_step ?_ (fun _ => ⟨trivial, fun _ => trivial⟩) ?_ (h.replica m.replica)
      · intro ds hds
        exact h.safe.listed_of_mem_agenda hds
      · rintro d turn ⟨hdeploys, hcases⟩ ⟨hhand, hown⟩
        refine ⟨Owners.inHand_step h.safe.divided hdeploys hhand _ _ _, ?_⟩
        intro hguid
        rcases hcases with ⟨_, happ, hwebish⟩ | ⟨hother, _⟩
        · exact inHand_step h.safe happ hwebish (hown hguid) _ _ _
        · exact absurd hguid hother
    · rw [update_of_ne hi]
      exact h.replica i

theorem safe_of (hs : s.Keyed) (hhomed : s.records.Homed)
    (hd : s.records.deployment d.guid = some d) (hdeploying : d.state = .deploying)
    (honly : ∀ key d', s.records.deployment key = some d' → d'.state = .deploying →
      d'.app = d.app → key = d.guid) (hstopped : d.stopped = []) :
    (of s.records d).Safe s.records.owners s where
  keyed := hs
  divided := hs.divided hhomed
  only := honly
  pointer app web happ hweb := by
    refine .inl ?_
    change (s.records.app d.app).bind App.web = some web
    rw [show s.records.app d.app = some app from happ, Option.bind_some, hweb]
  phase := by
    refine ⟨d, .inl ⟨hd, hdeploying, rfl, rfl, ?_, ?_, ?_⟩⟩
    · intro key before hbefore
      obtain ⟨hrow, _⟩ := Option.filter_eq_some_iff.mp hbefore
      refine ⟨before, hrow, rfl, .inl ⟨rfl, ?_⟩⟩
      rw [hstopped]
      exact List.not_mem_nil
    · rw [hstopped]
      exact List.nodup_nil
    · rw [hstopped]
      intro key hkey
      cases hkey

end Run
end Companions

/-- Whatever the replicas do, each with its own option, and in whatever order: a rollout leaves its
companions alone but for those that it has stopped and listed, and when it is over, they are all as
they were. -/
theorem Fleet.companions_restored {s : Store} (hs : s.Keyed) (hhomed : s.records.Homed)
    {d : Deployment} (hd : s.records.deployment d.guid = some d) (hdeploying : d.state = .deploying)
    (honly : ∀ key d', s.records.deployment key = some d' → d'.state = .deploying →
      d'.app = d.app → key = d.guid) (hstopped : d.stopped = []) (stopOthers : Nat → Bool)
    (moves : List Move) :
    let companions := Companions.of s.records d
    let later := (after stopOthers moves s).store.records
    ∃ d', companions.UnderWay later d' ∨ companions.Over later d' := by
  have howned := Companions.ownedBy_of hd
  have hkept : (Companions.of s.records d).Kept s.records.owners (after stopOthers moves s) := by
    induction moves using List.reverseRecOn with
    | nil => exact ⟨Companions.safe_of hs hhomed hd hdeploying honly hstopped, fun _ => trivial⟩
    | append_singleton moves m ih =>
        rw [after_concat]
        exact ih.step howned stopOthers m
  exact hkept.safe.phase

namespace Sample

private theorem deployment_staffed {key : Guid} {d : Deployment}
    (h : staffed.records.deployment key = some d) : key = "rollout" ∧ deployment = d := by
  rw [records_staffed, records_store] at h
  simpa [Function.update_apply, ite_eq_iff] using h

theorem homed_staffed : staffed.records.Homed := by
  have hweb : staffed.records.process "shop-1" = some (web 1) := by
    simp [records_staffed, records_store]
  have hwebish : staffed.records.process "shop-2" = some (webish 2) := by
    simp [records_staffed, records_store]
  constructor
  · intro key a guid p ha hguid hp
    rw [records_staffed, records_store] at ha
    obtain ⟨rfl, rfl⟩ : key = "shop" ∧ app = a := by
      simpa [Function.update_apply, ite_eq_iff] using ha
    obtain rfl : "shop-1" = guid := Option.some.inj hguid
    rw [← Option.some.inj (hweb.symm.trans hp)]
    rfl
  · intro key d guid p hd _ hguid hp
    obtain ⟨rfl, rfl⟩ := deployment_staffed hd
    obtain rfl : "shop-2" = guid := Option.some.inj hguid
    rw [← Option.some.inj (hwebish.symm.trans hp)]
    rfl
  · intro key d g p hd _ hg
    obtain ⟨rfl, rfl⟩ := deployment_staffed hd
    cases hg

end Sample

theorem Fleet.companions_restored_sample :
    let s := Sample.staffed
    let d := Sample.deployment
    let companions := Companions.of s.records d
    let later := (after (fun _ => true) (List.replicate 6 ⟨0, 5, .ok ∅⟩) s).store.records
    s.Keyed ∧ s.records.Homed ∧ s.records.deployment d.guid = some d ∧
      companions.process "shop-3" = some Sample.worker ∧
      ∃ d', d'.stopped = ["shop-3"] ∧
        (companions.UnderWay later d' ∨ companions.Over later d') := by
  intro s d companions later
  have hd : s.records.deployment d.guid = some d := by decide +kernel
  have honly : ∀ key d', s.records.deployment key = some d' → d'.state = .deploying →
      d'.app = d.app → key = d.guid :=
    fun _ _ hd' _ _ => (Sample.deployment_staffed hd').1
  have hworker : companions.process "shop-3" = some Sample.worker := by decide +kernel
  have hlist : (later.deployment d.guid).map Deployment.stopped = some ["shop-3"] := by
    decide +kernel
  obtain ⟨d', hphase⟩ : ∃ d', companions.UnderWay later d' ∨ companions.Over later d' :=
    Fleet.companions_restored Sample.keyed_staffed Sample.homed_staffed hd rfl honly rfl
      (fun _ => true) (List.replicate 6 ⟨0, 5, .ok ∅⟩)
  have hrow : later.deployment d.guid = some d' := by
    rcases hphase with hunder | hover
    · exact hunder.deployment
    · exact hover.deployment
  rw [hrow, Option.map_some, Option.some.injEq] at hlist
  exact ⟨Sample.keyed_staffed, Sample.homed_staffed, hd, hworker, d', hlist, hphase⟩

end Rollout
