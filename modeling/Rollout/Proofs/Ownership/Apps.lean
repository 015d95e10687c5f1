import Rollout.Proofs.Ownership.Turn

/-!
# Apps as owners

Where records name only processes of their own app, every app owns its row, its processes, its
deployments and the routes to its processes. On a store in good order an edit is never hindered, so
that the turns of an app depend on its own rows alone.
-/

namespace Rollout

/-- The web pointer of an app and all that a deployment under way names leads to processes of this
app, or to none. -/
structure Records.Homed (v : Records) : Prop where
  web : ∀ key app web p, v.app key = some app → app.web = some web → v.process web = some p →
    p.app = key
  webish : ∀ key d webish p, v.deployment key = some d → d.state = .deploying →
    d.webish = some webish → v.process webish = some p → p.app = d.app
  stopped : ∀ key d g p, v.deployment key = some d → d.state = .deploying → g ∈ d.stopped →
    v.process g = some p → p.app = d.app

/-- No app has two deployments under way. -/
def Records.OnePerApp (v : Records) : Prop :=
  ∀ key key' d d', v.deployment key = some d → v.deployment key' = some d' →
    d.state = .deploying → d'.state = .deploying → d.app = d'.app → key = key'

/-- Every app owns its records, and a route belongs to the app of the process that it leads to.
Keys without a record do not matter. -/
def Records.owners (v : Records) : Owners Guid where
  app key := key
  process key := (v.process key).map AppProcess.app
  deployment key := ((v.deployment key).map Deployment.app).getD key
  route key := ((v.route key).bind fun r => (v.process r.process).map AppProcess.app).getD key

section Owners

variable {s : Store}

theorem Records.mayName_owners {v : Records} {x key : Guid}
    (h : ∀ p, v.process key = some p → p.app = x) : v.owners.MayName x key := by
  cases hp : v.process key with
  | none =>
      refine .inr ?_
      simp only [owners, hp, Option.map_none]
  | some p =>
      refine .inl ?_
      simp only [owners, hp, Option.map_some, h p hp]

theorem Store.Keyed.divided (hs : s.Keyed) (h : s.records.Homed) : s.Divided s.records.owners where
  apps := by
    constructor
    · intro key hkey
      cases hkey
    · intro key app happ
      refine ⟨key, rfl, hs.guid_app happ, ?_⟩
      intro web hweb
      exact Records.mayName_owners fun p hp => h.web key app web p happ hweb hp
  processes := by
    constructor
    · intro key hkey
      have hnone : s.records.process key = none := Option.map_eq_none_iff.mp hkey
      cases hb : s.processes.find? key with
      | none => rfl
      | some bytes =>
          obtain ⟨p, hd, _⟩ := hs.processes key bytes hb
          change (s.processes.find? key).bind Record.decode? = none at hnone
          rw [hb, Option.bind_some, hd] at hnone
          cases hnone
    · intro key p hp
      have howner : s.records.owners.process key = some p.app :=
        Option.map_eq_some_iff.mpr ⟨p, hp, rfl⟩
      refine ⟨p.app, howner, ?_, rfl⟩
      rw [hs.guid_process hp]
      exact howner
  deployments := by
    constructor
    · intro key hkey
      cases hkey
    · intro key d hd
      have howner : s.records.owners.deployment key = d.app := by
        change ((s.records.deployment key).map Deployment.app).getD key = d.app
        rw [show s.records.deployment key = some d from hd]
        rfl
      refine ⟨d.app, congrArg some howner, ?_⟩
      intro hdeploying
      refine ⟨?_, rfl, ?_, ?_⟩
      · rw [hs.guid_deployment hd]
        exact howner
      · intro webish hwebish
        exact Records.mayName_owners fun p hp => h.webish key d webish p hd hdeploying hwebish hp
      · intro g hg
        exact Records.mayName_owners fun p hp => h.stopped key d g p hd hdeploying hg hp
  routes := by
    constructor
    · intro key hkey
      cases hkey
    · intro key r hr
      refine ⟨s.records.owners.route key, rfl, ?_, ?_⟩
      · rw [hs.guid_route hr]
      · apply Records.mayName_owners
        intro p hp
        change p.app = ((s.records.route key).bind _).getD key
        rw [show s.records.route key = some r from hr, Option.bind_some, hp]
        rfl

end Owners

section Keyed

variable {σ : Type} {o : Owners σ} {x : σ} {s t : Store}

private theorem readableBeyond_of_keyed {ρ : Type} [Tabled ρ] [Ownable ρ] [LawfulTabled ρ]
    (hs : s.Keyed) : ReadableBeyond ρ o x s :=
  fun key bytes _ => (LawfulTabled.keyed_rows s hs).readable key bytes

theorem Edit.not_hindered_of_keyed (hs : s.Keyed) (e : Edit) : ¬ e.Hindered o x s t := by
  cases e with
  | step => exact id
  | retire => exact fun h => h.2.1 (readableBeyond_of_keyed hs)
  | cutOver => exact fun h => h.1 (readableBeyond_of_keyed hs)

theorem Cycle.turn_alike_of_keyed (hs : s.Keyed) (ht : t.Keyed) (hs' : s.Divided o)
    (ht' : t.Divided o) (h : Store.Same o x s t) {d : Deployment} (hd : o.Deploys x d)
    (stopOthers : Bool) (now : Time) (reporter : AppProcess → Answer) :
    ∃ entry s' t', turn stopOthers now reporter d s = (entry, s') ∧
      turn stopOthers now reporter d t = (entry, t') ∧ Store.Alike o x s t s' t' := by
  rcases turn_alike hs' ht' h hd stopOthers now reporter with halike | hhindered | hhindered
  · exact halike
  · obtain ⟨pair, _, _, hedit⟩ := hhindered.edit
    exact absurd hedit (Edit.not_hindered_of_keyed hs _)
  · obtain ⟨pair, _, _, hedit⟩ := hhindered.edit
    exact absurd hedit (Edit.not_hindered_of_keyed ht _)

end Keyed

namespace Sample

theorem records_twoApps : twoApps.records = {
    app := Function.update (Function.update (fun _ => none) "shop" (some app)) "blog" (some blog)
    process := Function.update (Function.update (Function.update (Function.update (fun _ => none)
      "shop-1" (some (web 1))) "shop-2" (some (webish 2))) "blog-1" (some blogWeb))
      "blog-2" (some blogWebish)
    deployment := Function.update (Function.update (fun _ => none) "rollout" (some deployment))
      "relaunch" (some relaunch)
    route := Function.update (fun _ => none) "shop-route" (some route) } := by
  simp only [twoApps, Store.records_put_app, Store.records_put_process,
    Store.records_put_deployment, records_store]
  rfl

private theorem app_cases {key : Guid} {a : App} (h : twoApps.records.app key = some a) :
    key = "shop" ∧ a = app ∨ key = "blog" ∧ a = blog := by
  rw [records_twoApps] at h
  simp only [Function.update_apply, ite_eq_iff] at h
  rcases h with ⟨hkey, ⟨⟩⟩ | ⟨_, ⟨hkey, ⟨⟩⟩ | ⟨_, ⟨⟩⟩⟩
  · exact .inr ⟨hkey, rfl⟩
  · exact .inl ⟨hkey, rfl⟩

private theorem deployment_cases {key : Guid} {d : Deployment}
    (h : twoApps.records.deployment key = some d) :
    key = "rollout" ∧ d = deployment ∨ key = "relaunch" ∧ d = relaunch := by
  rw [records_twoApps] at h
  simp only [Function.update_apply, ite_eq_iff] at h
  rcases h with ⟨hkey, ⟨⟩⟩ | ⟨_, ⟨hkey, ⟨⟩⟩ | ⟨_, ⟨⟩⟩⟩
  · exact .inr ⟨hkey, rfl⟩
  · exact .inl ⟨hkey, rfl⟩

private theorem processes_twoApps :
    twoApps.records.process "shop-1" = some (web 1) ∧
      twoApps.records.process "shop-2" = some (webish 2) ∧
      twoApps.records.process "blog-1" = some blogWeb ∧
      twoApps.records.process "blog-2" = some blogWebish := by
  simp [records_twoApps]

theorem homed_twoApps : twoApps.records.Homed := by
  obtain ⟨hshop1, hshop2, hblog1, hblog2⟩ := processes_twoApps
  constructor
  · intro key a guid p ha hweb hp
    rcases app_cases ha with ⟨rfl, rfl⟩ | ⟨rfl, rfl⟩
    · obtain rfl : "shop-1" = guid := Option.some.inj hweb
      rw [← Option.some.inj (hshop1.symm.trans hp)]
      rfl
    · obtain rfl : "blog-1" = guid := Option.some.inj hweb
      rw [← Option.some.inj (hblog1.symm.trans hp)]
      rfl
  · intro key d guid p hd _ hwebish hp
    rcases deployment_cases hd with ⟨rfl, rfl⟩ | ⟨rfl, rfl⟩
    · obtain rfl : "shop-2" = guid := Option.some.inj hwebish
      rw [← Option.some.inj (hshop2.symm.trans hp)]
      rfl
    · obtain rfl : "blog-2" = guid := Option.some.inj hwebish
      rw [← Option.some.inj (hblog2.symm.trans hp)]
      rfl
  · intro key d g p hd _ hg
    rcases deployment_cases hd with ⟨rfl, rfl⟩ | ⟨rfl, rfl⟩
    · cases hg
    · cases hg

theorem onePerApp_twoApps : twoApps.records.OnePerApp := by
  intro key key' d d' hd hd' _ _ happ
  rcases deployment_cases hd with ⟨rfl, rfl⟩ | ⟨rfl, rfl⟩
  · rcases deployment_cases hd' with ⟨rfl, rfl⟩ | ⟨rfl, rfl⟩
    · rfl
    · exact absurd happ (by decide)
  · rcases deployment_cases hd' with ⟨rfl, rfl⟩ | ⟨rfl, rfl⟩
    · exact absurd happ (by decide)
    · rfl

end Sample
end Rollout
