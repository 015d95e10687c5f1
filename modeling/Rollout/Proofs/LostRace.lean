import Rollout.Proofs.Turn

/-!
# Lost races

A turn works on a deployment as it was listed, and other replicas may have edited the store since.
As long as the deployment is under way, the turn moves it or skips it. Once it is cut over, its
new process is the web process of the app, and the turn takes the listed deployment for one that is
bound for the web process: it ends in an error and never comes to a conflict.
-/

namespace Rollout

/-- From the web process of its app to another process of the app: what a deployment under way is
to find. -/
structure Records.Pairing (v : Records) (app web webish : Guid) : Prop where
  owner : ∃ row, v.app app = some row ∧ row.web = some web
  old : ∃ p, v.process web = some p ∧ p.app = app
  new : ∃ p, v.process webish = some p ∧ p.app = app
  distinct : webish ≠ web

/-- Every deployment under way is the only one of its app and finds its two processes. -/
structure Records.Rolling (v : Records) : Prop where
  only : ∀ key key' d d', v.deployment key = some d → v.deployment key' = some d' →
    d.state = .deploying → d'.state = .deploying → d.app = d'.app → key = key'
  pairing : ∀ key d, v.deployment key = some d → d.state = .deploying →
    ∃ web webish, d.webish = some webish ∧ v.Pairing d.app web webish

/-- The deployment under this key has been cut over to this process of the app, and no other one
has begun. -/
structure Records.Settled (v : Records) (key app web : Guid) : Prop where
  deployment : ∃ d, v.deployment key = some d ∧ d.state = .deployed ∧ d.app = app
  none_begun : ∀ other d, v.deployment other = some d → d.state = .deploying → d.app ≠ app
  owner : ∃ row, v.app app = some row ∧ row.web = some web
  process : ∃ p, v.process web = some p ∧ p.app = app

/-- What can have become of a deployment under way that was listed with this app and target. -/
inductive Records.Since (v : Records) (key app webish : Guid) : Prop where
  | underWay {d : Deployment} (hd : v.deployment key = some d) (deploying : d.state = .deploying)
      (same_app : d.app = app) (same_webish : d.webish = some webish)
  | settled (h : v.Settled key app webish)

open Function (update update_self update_of_ne)

namespace Records

variable {v w : Records} {plan : Plan} {now : Time} {e : Edit} {change : Change}
  {key app web webish : Guid}

theorem Rolling.process_of_other (h : v.Rolling) (heffect : Edit.Effect plan now v e change w)
    (hother : ∀ d, v.deployment plan.deployment = some d → d.app ≠ app) {p : AppProcess}
    (hp : v.process key = some p) (happ : p.app = app) :
    ∃ q, w.process key = some q ∧ q.app = app := by
  by_cases hcut : e = .cutOver
  · subst hcut
    have hkey : key ≠ plan.old := by
      cases heffect with
      | @cutOver d row _ _ _ _ current owner hweb =>
          obtain ⟨web, _, _, hpairing⟩ := h.pairing _ d current.deployment current.deploying
          obtain ⟨row', hrow', hweb'⟩ := hpairing.owner
          obtain rfl := Option.some.inj (owner.symm.trans hrow')
          obtain rfl : plan.old = web := Option.some.inj (hweb.symm.trans hweb')
          obtain ⟨q, hq, howner⟩ := hpairing.old
          rintro rfl
          obtain rfl := Option.some.inj (hp.symm.trans hq)
          exact hother d current.deployment (howner.symm.trans happ)
    obtain ⟨q, hq, hsame⟩ := heffect.process_after (.inl hkey) hp
    exact ⟨q, hq, hsame.trans happ⟩
  · obtain ⟨q, hq, hsame⟩ := heffect.process_after (.inr hcut) hp
    exact ⟨q, hq, hsame.trans happ⟩

theorem Pairing.keep (h : v.Pairing app web webish) (hrow : w.app app = v.app app)
    (hprocess : ∀ key p, v.process key = some p → p.app = app →
      ∃ q, w.process key = some q ∧ q.app = app) : w.Pairing app web webish where
  owner := by
    rw [hrow]
    exact h.owner
  old := by
    obtain ⟨p, hp, howner⟩ := h.old
    exact hprocess web p hp howner
  new := by
    obtain ⟨p, hp, howner⟩ := h.new
    exact hprocess webish p hp howner
  distinct := h.distinct

theorem Rolling.effect (h : v.Rolling) (heffect : Edit.Effect plan now v e change w) :
    w.Rolling where
  only key key' d d' hd hd' hdeploying hdeploying' happ := by
    obtain ⟨before, hbefore, hstate, hsame, _⟩ := heffect.underWay_before hd hdeploying
    obtain ⟨before', hbefore', hstate', hsame', _⟩ := heffect.underWay_before hd' hdeploying'
    have hone : before.app = before'.app := by rw [hsame, hsame', happ]
    exact h.only key key' before before' hbefore hbefore' hstate hstate' hone
  pairing key d hd hdeploying := by
    obtain ⟨before, hbefore, hstate, happ, hwebish⟩ := heffect.underWay_before hd hdeploying
    obtain ⟨web, webish, hbound, hpairing⟩ := h.pairing key before hbefore hstate
    rw [happ] at hpairing
    refine ⟨web, webish, hwebish ▸ hbound, ?_⟩
    obtain ⟨d₀, _, current⟩ := heffect.current
    by_cases hother : d₀.app = d.app
    · -- The edit is one of this very deployment, which a cut-over would have ended.
      have hkey : plan.deployment = key :=
        h.only _ _ d₀ before current.deployment hbefore current.deploying hstate
          (hother.trans happ.symm)
      have hcut : e ≠ .cutOver := by
        rintro rfl
        obtain ⟨d', hd', hdeployed⟩ := heffect.deployed_of_cutOver
        rw [hkey] at hd'
        rw [Option.some.inj (hd'.symm.trans hd), hdeploying] at hdeployed
        cases hdeployed
      refine hpairing.keep (heffect.app_of_ne_cutOver hcut _) ?_
      intro key p hp howner
      obtain ⟨q, hq, hsame⟩ := heffect.process_after (.inr hcut) hp
      exact ⟨q, hq, hsame.trans howner⟩
    · refine hpairing.keep (heffect.app_of_ne current.deployment (Ne.symm hother)) ?_
      intro key p hp howner
      refine h.process_of_other heffect ?_ hp howner
      intro d' hd'
      rwa [Option.some.inj (hd'.symm.trans current.deployment)]

theorem Settled.effect (h : v.Settled key app web) (hrolling : v.Rolling)
    (heffect : Edit.Effect plan now v e change w) : w.Settled key app web := by
  obtain ⟨d₀, _, current⟩ := heffect.current
  have hother : d₀.app ≠ app := h.none_begun _ d₀ current.deployment current.deploying
  constructor
  · obtain ⟨d, hd, hdeployed, happ⟩ := h.deployment
    have hkey : key ≠ plan.deployment := by
      rintro rfl
      rw [Option.some.inj (hd.symm.trans current.deployment), current.deploying] at hdeployed
      cases hdeployed
    exact ⟨d, (heffect.deployment_of_ne hkey).trans hd, hdeployed, happ⟩
  · intro other d hd hdeploying
    obtain ⟨before, hbefore, hstate, happ, _⟩ := heffect.underWay_before hd hdeploying
    rw [← happ]
    exact h.none_begun other before hbefore hstate
  · rw [heffect.app_of_ne current.deployment hother.symm]
    exact h.owner
  · obtain ⟨p, hp, happ⟩ := h.process
    refine hrolling.process_of_other heffect ?_ hp happ
    intro d' hd'
    rwa [Option.some.inj (hd'.symm.trans current.deployment)]

/-- A cut-over settles its deployment, the only one of its app. -/
theorem Rolling.settled_of_cutOver (h : v.Rolling) {d : Deployment}
    (hd : v.deployment plan.deployment = some d)
    (heffect : Edit.Effect plan now v .cutOver change w) :
    w.Settled plan.deployment d.app plan.new := by
  obtain ⟨d', hd', hdeployed⟩ := heffect.deployed_of_cutOver
  obtain ⟨before, hbefore, hsame, _⟩ := heffect.deployment_before hd'
  obtain rfl := Option.some.inj (hd.symm.trans hbefore)
  refine ⟨⟨d', hd', hdeployed, hsame.symm⟩, ?_, ?_, ?_⟩
  · intro other d'' hd'' hdeploying happ
    obtain ⟨begun, hbegun, hstate, hsame', _⟩ := heffect.underWay_before hd'' hdeploying
    obtain ⟨_, _, current⟩ := heffect.current
    obtain rfl := Option.some.inj (hd.symm.trans current.deployment)
    obtain rfl := h.only other plan.deployment begun d hbegun hd hstate current.deploying
      (hsame'.trans happ)
    rw [Option.some.inj (hd''.symm.trans hd'), hdeployed] at hdeploying
    cases hdeploying
  · cases heffect with
    | cutOver current owner =>
        obtain rfl := Option.some.inj (hd.symm.trans current.deployment)
        exact ⟨_, update_self _ _ _, rfl⟩
  · obtain ⟨_, _, current⟩ := heffect.current
    obtain rfl := Option.some.inj (hd.symm.trans current.deployment)
    obtain ⟨web, webish, hwebish, hpairing⟩ := h.pairing _ d hd current.deploying
    obtain rfl : plan.new = webish := Option.some.inj (current.webish.symm.trans hwebish)
    obtain ⟨p, hp, happ⟩ := hpairing.new
    obtain ⟨q, hq, hsame⟩ := heffect.process_after (.inl current.distinct.symm) hp
    exact ⟨q, hq, hsame.trans happ⟩

theorem Since.effect (h : v.Since key app webish) (hrolling : v.Rolling)
    (heffect : Edit.Effect plan now v e change w) : w.Since key app webish := by
  cases h with
  | settled h => exact .settled (h.effect hrolling heffect)
  | @underWay d hd hdeploying happ hwebish =>
      by_cases hcut : key = plan.deployment ∧ e = .cutOver
      · obtain ⟨rfl, rfl⟩ := hcut
        obtain ⟨_, _, current⟩ := heffect.current
        obtain rfl := Option.some.inj (hd.symm.trans current.deployment)
        obtain rfl : plan.new = webish := Option.some.inj (current.webish.symm.trans hwebish)
        rw [← happ]
        exact .settled (hrolling.settled_of_cutOver hd heffect)
      · obtain ⟨d', hd', hstate, hsame, hkept⟩ := heffect.deployment_after (by tauto) hd
        exact .underWay hd' (hstate.trans hdeploying) (hsame.trans happ) (hkept.trans hwebish)

end Records

namespace Turn

variable {s : Store} {d found : Deployment} {webish : Guid}

theorem pairOf_underWay (hs : s.Keyed) {web : Guid} (hbound : d.webish = some webish)
    (h : s.records.Pairing d.app web webish) :
    ∃ pair, pairOf s d = .ok pair ∧ pair.new.guid = webish := by
  obtain ⟨row, hrow, hweb⟩ := h.owner
  obtain ⟨old, hold, _⟩ := h.old
  obtain ⟨new, hnew, _⟩ := h.new
  exact ⟨⟨old, new⟩, pairOf_of_records hs hrow hweb hold hbound h.distinct hnew,
    hs.guid_process hnew⟩

/-- Once it is cut over, a deployment seems to be bound for the web process of its app. -/
theorem pairOf_settled (hs : s.Keyed) {key : Guid} (hbound : d.webish = some webish)
    (h : s.records.Settled key d.app webish) :
    pairOf s d = .error (.webishIsWeb d.guid webish) := by
  obtain ⟨row, hrow, hweb⟩ := h.owner
  obtain ⟨p, hp, _⟩ := h.process
  have hfound : webOf s d = .ok webish := (webOf_ok hs).mpr ⟨row, hrow, hweb⟩
  have hold : processAt s webish = .ok p := (processAt_ok hs).mpr hp
  have hsame : webishOf d p = .error (.webishIsWeb d.guid webish) := by
    rw [webishOf, hbound, hs.guid_process hp]
    simp
  simp [pairOf, hfound, hold, hsame, bind, Except.bind]

theorem conclude_underWay (hs : s.Keyed) {pair : Pair} (hpair : pairOf s d = .ok pair)
    (hrow : s.records.deployment d.guid = some found) (hsame : found.app = d.app)
    (room : pair.new.instances.toNat + 1 < UInt32.size) (stopOthers : Bool) (now : Time) :
    ∃ outcome s', conclude stopOthers now d pair s = (.ok outcome, s') := by
  obtain ⟨row, howner, _, hold, _, _, hnew⟩ := (pairOf_ok hs).mp hpair
  rw [conclude]
  rcases h : (pair.edit stopOthers).apply (pair.plan d) now s with ⟨reason | change, s'⟩
  · obtain ⟨conflict, rfl⟩ :=
      Edit.conflict_of_apply_error hs hrow (hsame ▸ howner) hold hnew room h
    exact ⟨.skipped (.conflict conflict), s', rfl⟩
  · exact ⟨.moved change, s', rfl⟩

end Turn

/-- While the deployment is under way, its turn does not fail, whatever else has changed since it
was listed. -/
theorem Cycle.turn_underWay {s : Store} (hs : s.Keyed) (hrolling : s.records.Rolling)
    {d found : Deployment} (hfound : s.records.deployment d.guid = some found)
    (hunder : found.state = .deploying) (happ : found.app = d.app)
    (hwebish : found.webish = d.webish)
    (room : ∀ webish p, d.webish = some webish → s.records.process webish = some p →
      p.instances.toNat + 1 < UInt32.size)
    (stopOthers : Bool) (now : Time) (reporter : AppProcess → Answer) :
    ∃ outcome, (turn stopOthers now reporter d s).1.result = .ok outcome := by
  obtain ⟨web, webish, hbound, hpairing⟩ := hrolling.pairing d.guid found hfound hunder
  rw [hwebish] at hbound
  rw [happ] at hpairing
  obtain ⟨pair, hpair, hnew⟩ := Turn.pairOf_underWay hs hbound hpairing
  rw [turn, hpair]
  simp only [Turn.verdict]
  cases Readiness.ofAnswer (reporter pair.new) with
  | unavailable text => exact ⟨_, rfl⟩
  | notRunning running total => exact ⟨_, rfl⟩
  | ready =>
      obtain ⟨_, _, _, _, _, _, hprocess⟩ := (Turn.pairOf_ok hs).mp hpair
      have hspace := room webish pair.new hbound (hnew ▸ hprocess)
      obtain ⟨outcome, s', h⟩ := Turn.conclude_underWay hs hpair hfound happ hspace stopOthers now
      simp only [h]
      exact ⟨outcome, rfl⟩

/-- A race that is lost is a skip as long as the deployment is under way, and an error without any
effect from the moment it is cut over. -/
theorem Cycle.turn_of_listed {s : Store} (hs : s.Keyed) (hrolling : s.records.Rolling)
    {listed : List Deployment} (hlisted : agenda s = .ok listed) {d : Deployment}
    (hd : d ∈ listed) (calls : List Call)
    (room : ∀ webish p, d.webish = some webish →
      (Call.after calls s).records.process webish = some p → p.instances.toNat + 1 < UInt32.size)
    (stopOthers : Bool) (now : Time) (reporter : AppProcess → Answer) :
    ∃ found, (Call.after calls s).records.deployment d.guid = some found ∧
      ((found.state = .deploying ∧
          ∃ outcome, (turn stopOthers now reporter d (Call.after calls s)).1.result = .ok outcome) ∨
        (found.state = .deployed ∧ ∃ webish, d.webish = some webish ∧
          turn stopOthers now reporter d (Call.after calls s) =
            (⟨d.guid, none, .error (.webishIsWeb d.guid webish)⟩, Call.after calls s))) := by
  obtain ⟨ds, hds, hmem, _⟩ := agenda_ok hs
  obtain rfl : listed = ds := Except.ok.inj (hlisted.symm.trans hds)
  obtain ⟨hrow, hdeploying⟩ := (hmem d).mp hd
  obtain ⟨web, webish, hbound, _⟩ := hrolling.pairing d.guid d hrow hdeploying
  have hkeyed := Call.keyed_after hs calls
  obtain ⟨hrolling', hsince⟩ :
      (Call.after calls s).records.Rolling ∧
        (Call.after calls s).records.Since d.guid d.app webish :=
    Call.after_invariant (fun v => v.Rolling ∧ v.Since d.guid d.app webish) hs
      ⟨hrolling, .underWay hrow hdeploying rfl hbound⟩
      (fun _ _ _ _ _ hv h => ⟨hv.1.effect h, hv.2.effect hv.1 h⟩) calls
  generalize Call.after calls s = later at *
  cases hsince with
  | @underWay found hfound hunder happ hwebish =>
      refine ⟨found, hfound, .inl ⟨hunder, ?_⟩⟩
      have hsame : found.webish = d.webish := hwebish.trans hbound.symm
      exact turn_underWay hkeyed hrolling' hfound hunder happ hsame room stopOthers now reporter
  | settled hsettled =>
      obtain ⟨found, hfound, hdeployed, _⟩ := hsettled.deployment
      refine ⟨found, hfound, .inr ⟨hdeployed, webish, hbound, ?_⟩⟩
      rw [turn, Turn.pairOf_settled hkeyed hbound hsettled]

namespace Sample

theorem rolling_store (old new : UInt32) : (store old new).records.Rolling := by
  rw [records_store]
  have honly : ∀ (key : Guid) (d : Deployment),
      update (fun _ : Guid => (none : Option Deployment)) "rollout" (some deployment) key = some d →
        key = "rollout" ∧ deployment = d := by
    intro key d hd
    simpa [Function.update_apply, ite_eq_iff] using hd
  constructor
  · intro key key' d d' hd hd' _ _ _
    rw [(honly key d hd).1, (honly key' d' hd').1]
  · intro key d hd _
    obtain ⟨rfl, rfl⟩ := honly key d hd
    refine ⟨"shop-1", "shop-2", rfl, ⟨app, ?_, rfl⟩, ⟨web old, ?_, rfl⟩, ⟨webish new, ?_, rfl⟩, ?_⟩
    · simp [deployment, Deployment.create]
    · simp
    · simp
    · decide

def cutOver : Call := ⟨.cutOver, ⟨"rollout", "shop-1", "shop-2"⟩, 6⟩

theorem run_cutOver (new : UInt32) : ∃ change s',
    cutOver.run (store 0 new) = (.ok change, s') ∧
      Edit.Effect cutOver.plan 6 (store 0 new).records .cutOver change s'.records := by
  have hs := keyed_store 0 new
  have hd : (store 0 new).records.deployment "rollout" = some deployment := by
    simp [records_store]
  have happ : (store 0 new).records.app "shop" = some app := by simp [records_store]
  have hold : (store 0 new).records.process "shop-1" = some (web 0) := by simp [records_store]
  have hnew : (store 0 new).records.process "shop-2" = some (webish new) := by
    simp [records_store]
  have current : cutOver.plan.Current (store 0 new).records deployment (web 0) :=
    ⟨by decide, hd, rfl, rfl, hold⟩
  have hsucceeds : Transaction.Succeeds (Edit.cutOver.transaction cutOver.plan 6) (store 0 new) :=
    Plan.succeeds_cutOver hs current happ rfl rfl hnew
  obtain ⟨change, s', h⟩ := Edit.apply_of_succeeds hsucceeds
  exact ⟨change, s', h, (Edit.effect_of_apply hs h).2⟩

end Sample

theorem Cycle.turn_of_listed_sample :
    let later := Call.after [Sample.cutOver] (Sample.store 0 2)
    (Sample.store 0 2).Keyed ∧ (Sample.store 0 2).records.Rolling ∧
      (∃ listed, agenda (Sample.store 0 2) = .ok listed ∧ Sample.deployment ∈ listed) ∧
      turn true 7 (fun _ => .ok ∅) Sample.deployment later =
        (⟨"rollout", none, .error (.webishIsWeb "rollout" "shop-2")⟩, later) := by
  have hs := Sample.keyed_store 0 2
  have hrolling := Sample.rolling_store 0 2
  obtain ⟨listed, hlisted, hmem, _⟩ := agenda_ok hs
  have hd : Sample.deployment ∈ listed := (hmem _).mpr ⟨by simp [Sample.records_store]; rfl, rfl⟩
  refine ⟨hs, hrolling, ⟨listed, hlisted, hd⟩, ?_⟩
  obtain ⟨change, s', hrun, heffect⟩ := Sample.run_cutOver 2
  have hlater : Call.after [Sample.cutOver] (Sample.store 0 2) = s' := by
    rw [Call.after, List.foldl_cons, List.foldl_nil, hrun]
  have room : ∀ webish p, Sample.deployment.webish = some webish →
      (Call.after [Sample.cutOver] (Sample.store 0 2)).records.process webish = some p →
      p.instances.toNat + 1 < UInt32.size := by
    rintro webish p hwebish hp
    obtain rfl : "shop-2" = webish := Option.some.inj hwebish
    have hshape := heffect.shape_of_cutOver
    have hnew : (Sample.store 0 2).records.process "shop-2" = some (Sample.webish 2) := by
      simp [Sample.records_store]
    rw [hlater] at hp
    rw [show Sample.cutOver.plan.new = "shop-2" from rfl, Records.shape_of_process hp,
      Records.shape_of_process hnew] at hshape
    have hcount : p.instances = 2 := congrArg AppProcess.Shape.instances (Option.some.inj hshape)
    rw [hcount]
    decide
  obtain ⟨found, hfound, ⟨hunder, _⟩ | ⟨_, webish, hwebish, hturn⟩⟩ :=
    Cycle.turn_of_listed hs hrolling hlisted hd [Sample.cutOver] room true 7 fun _ => .ok ∅
  · obtain ⟨d, hdeployed, hstate⟩ := heffect.deployed_of_cutOver
    rw [hlater] at hfound
    rw [Option.some.inj (hfound.symm.trans hdeployed), hstate] at hunder
    cases hunder
  · obtain rfl : "shop-2" = webish := Option.some.inj hwebish
    exact hturn

end Rollout
