import Rollout.Proofs.Edit
import Rollout.Proofs.Edit.Footprint
import Mathlib.Data.Set.Card

/-!
# When an edit succeeds, and what it then has done

On a store in good order the records alone decide whether an edit succeeds. If it does, it leaves
the records of its rule, rows outside its footprint stay as they were, and the change that it
reports counts what it did.
-/

namespace Rollout

variable {plan : Plan} {now : Time} {s s' : Store} {change : Change} {v w : Records}

namespace Plan

/-- What a cut-over asks: the old process is the web process of the app and has no instance left,
and the new one is there. -/
structure CutsOver (plan : Plan) (v : Records) (d : Deployment) (app : App)
    (old new : AppProcess) : Prop where
  current : plan.Current v d old
  owner : v.app d.app = some app
  web : app.web = some plan.old
  none_left : old.instances = 0
  target : v.process plan.new = some new

theorem CutsOver.unique {d d' : Deployment} {app app' : App} {old old' new new' : AppProcess}
    (h : plan.CutsOver v d app old new) (h' : plan.CutsOver v d' app' old' new') :
    d' = d ∧ app' = app ∧ new' = new := by
  obtain rfl : d' = d := Option.some.inj (h'.current.deployment.symm.trans h.current.deployment)
  exact ⟨rfl, Option.some.inj (h'.owner.symm.trans h.owner),
    Option.some.inj (h'.target.symm.trans h.target)⟩

theorem Current.unique {d d' : Deployment} {old old' : AppProcess} (h : plan.Current v d old)
    (h' : plan.Current v d' old') : d' = d ∧ old' = old :=
  ⟨Option.some.inj (h'.deployment.symm.trans h.deployment),
    Option.some.inj (h'.old.symm.trans h.old)⟩

end Plan

private theorem length_eq_ncard {keys : Set Guid} {listed : List Guid} (hnodup : listed.Nodup)
    (hmem : ∀ key, key ∈ listed ↔ key ∈ keys) : listed.length = keys.ncard := by
  have hset : keys = (listed.toFinset : Set Guid) := by
    ext key
    rw [Finset.mem_coe, List.mem_toFinset, hmem]
  rw [hset, Set.ncard_coe_finset, List.toFinset_card_of_nodup hnodup]

namespace Edit.Effect

theorem cutOver_cases (hs : s.Keyed) (h : Effect plan now s.records .cutOver change w) :
    ∃ d app old new, plan.CutsOver s.records d app old new ∧
      change = .cutOver (.ofNat (plan.ledKeys s.records).ncard)
        (.ofNat (plan.restartedKeys d s.records).ncard) ∧
      w = plan.afterCutOver now d app new s.records := by
  cases h with
  | @cutOver d app old new routes restarted current owner web none_left target routes_sorted
      mem_routes restarted_nodup mem_restarted =>
      have hled : ∀ key, key ∈ routes.map Route.guid ↔ key ∈ plan.ledKeys s.records := by
        intro key
        rw [List.mem_map]
        constructor
        · rintro ⟨r, hr, rfl⟩
          exact ⟨r, (mem_routes r).mp hr⟩
        · rintro ⟨r, hr, hprocess⟩
          obtain rfl := hs.guid_route hr
          exact ⟨r, (mem_routes r).mpr ⟨hr, hprocess⟩, rfl⟩
      have hroutes := length_eq_ncard routes_sorted.nodup hled
      have hrestarted : restarted.length = (plan.restartedKeys d s.records).ncard :=
        length_eq_ncard restarted_nodup mem_restarted
      rw [List.length_map] at hroutes
      exact ⟨d, app, old, new, ⟨current, owner, web, none_left, target⟩, by rw [hroutes, hrestarted],
        rfl⟩

theorem retire_cases (h : Effect plan now v (.retire false) change w) :
    ∃ d old, plan.Current v d old ∧ old.instances = 1 ∧ change = .retired 0 ∧
      w = plan.afterRetirement now old v := by
  cases h with
  | retire current last => exact ⟨_, _, current, last, rfl, rfl⟩

theorem retireAlone_cases (hs : s.Keyed) (h : Effect plan now s.records (.retire true) change w) :
    ∃ d old siblings, plan.Current s.records d old ∧ old.instances = 1 ∧
      Lists s.records.process (fun p => p.app = d.app ∧ p.guid ≠ plan.old ∧ p.guid ≠ plan.new ∧
        p.state = .started) siblings ∧
      change = .retired (.ofNat siblings.length) ∧
      w = plan.afterLoneRetirement now d old siblings s.records := by
  cases h with
  | @retireAlone d old siblings current last sorted mem_siblings =>
      have hlists : Lists s.records.process (fun p => p.app = d.app ∧ p.guid ≠ plan.old ∧
          p.guid ≠ plan.new ∧ p.state = .started) siblings := by
        constructor
        · intro p
          rw [mem_siblings, Plan.isSibling_iff]
          constructor
          · rintro ⟨hp, hsibling⟩
            exact ⟨_, hp, hsibling⟩
          · rintro ⟨key, hp, hsibling⟩
            obtain rfl := hs.guid_process hp
            exact ⟨hp, hsibling⟩
        · rw [List.pairwise_map] at sorted ⊢
          exact sorted.imp Utf8.encode_lt
      exact ⟨d, old, siblings, current, last, hlists, rfl, rfl⟩

end Edit.Effect

namespace Edit

theorem find?_new_of_retire {stopOthers : Bool} {d : Deployment} (hs : s.Keyed)
    (hne : plan.old ≠ plan.new)
    (h : s.SameOutside ((Edit.retire stopOthers).footprint plan d s.records) s') :
    s'.processes.find? plan.new = s.processes.find? plan.new := by
  apply h.processes
  cases stopOthers with
  | false => exact hne.symm
  | true =>
      rintro (hnew | ⟨p, hp, hsibling⟩)
      · exact hne hnew.symm
      · exact (plan.isSibling_iff.mp hsibling).2.2.1 (hs.guid_process hp)

theorem cutOver_succeeds_iff (hs : s.Keyed) (now : Time) :
    (∃ change s', Edit.cutOver.apply plan now s = (.ok change, s')) ↔
      ∃ d app old new, plan.CutsOver s.records d app old new := by
  constructor
  · rintro ⟨change, s', h⟩
    obtain ⟨d, app, old, new, hcuts, -⟩ := (effect_of_apply hs h).2.cutOver_cases hs
    exact ⟨d, app, old, new, hcuts⟩
  · rintro ⟨d, app, old, new, h⟩
    exact apply_of_succeeds
      (Plan.succeeds_cutOver hs h.current h.owner h.web h.none_left h.target)

theorem apply_of_cutsOver (hs : s.Keyed) {d : Deployment} {app : App} {old new : AppProcess}
    (hcuts : plan.CutsOver s.records d app old new) : ∃ s',
      Edit.cutOver.apply plan now s =
        (.ok (.cutOver (.ofNat (plan.ledKeys s.records).ncard)
          (.ofNat (plan.restartedKeys d s.records).ncard)), s') ∧
      s'.Keyed ∧ s'.records = plan.afterCutOver now d app new s.records ∧
      s.SameOutside (Edit.cutOver.footprint plan d s.records) s' := by
  obtain ⟨change, s', h⟩ := (cutOver_succeeds_iff hs now).mpr ⟨d, app, old, new, hcuts⟩
  obtain ⟨hkeyed, heffect⟩ := effect_of_apply hs h
  obtain ⟨d', app', old', new', hcuts', rfl, hrecords⟩ := heffect.cutOver_cases hs
  obtain ⟨rfl, rfl, rfl⟩ := hcuts.unique hcuts'
  exact ⟨s', h, hkeyed, hrecords, sameOutside_apply hs h hcuts.current.deployment⟩

/-- A cut-over succeeds exactly if the old process is the web process of the app and has no
instances left. Then the app and its routes change over to the new one, and what was stopped starts
again. -/
theorem cutOver_exact (hs : s.Keyed) (plan : Plan) (now : Time) :
    ((∃ change s', Edit.cutOver.apply plan now s = (.ok change, s')) ↔
        ∃ d app old new, plan.CutsOver s.records d app old new) ∧
      ∀ d app old new, plan.CutsOver s.records d app old new → ∃ s',
        Edit.cutOver.apply plan now s =
          (.ok (.cutOver (.ofNat (plan.ledKeys s.records).ncard)
            (.ofNat (plan.restartedKeys d s.records).ncard)), s') ∧
        s'.Keyed ∧ s'.records = plan.afterCutOver now d app new s.records ∧
        s.SameOutside (Edit.cutOver.footprint plan d s.records) s' :=
  ⟨cutOver_succeeds_iff hs now, fun _ _ _ _ => apply_of_cutsOver hs⟩

end Edit

namespace Sample

/-- The worker as it was stopped with the last old instance. -/
def idle : AppProcess := { worker with state := .stopped }

/-- The deployment names the idle worker twice, both processes of its plan, and one without a row. -/
def ending : Deployment :=
  { deployment with stopped := ["shop-3", "shop-1", "shop-2", "shop-3", "shop-4"] }

def drained : Store := ((store 0 2).put idle).put ending

theorem keyed_drained : drained.Keyed := ((keyed_store 0 2).put _).put _

theorem records_drained : drained.records = { (store 0 2).records with
    process := Function.update (store 0 2).records.process "shop-3" (some idle)
    deployment := Function.update (store 0 2).records.deployment "rollout" (some ending) } := by
  rw [drained, Store.records_put_deployment, Store.records_put_process]
  rfl

end Sample

/-- The route moves, and the worker is started once. -/
theorem Edit.cutOver_exact_sample :
    let plan : Plan := ⟨"rollout", "shop-1", "shop-2"⟩
    Sample.drained.Keyed ∧
      ∃ s', Edit.cutOver.apply plan 9 Sample.drained = (.ok (.cutOver 1 1), s') := by
  intro plan
  have hcuts : plan.CutsOver Sample.drained.records Sample.ending Sample.app (Sample.web 0)
      (Sample.webish 2) := by
    rw [Sample.records_drained, Sample.records_store]
    exact ⟨⟨by decide, rfl, rfl, rfl, rfl⟩, rfl, rfl, rfl, rfl⟩
  have hled : plan.ledKeys Sample.drained.records = {"shop-route"} := by
    ext key
    rw [Sample.records_drained, Sample.records_store]
    simp [Plan.ledKeys, Function.update_apply, ite_eq_iff, Sample.route, plan]
  have hrestarted : plan.restartedKeys Sample.ending Sample.drained.records = {"shop-3"} := by
    ext key
    rw [Sample.records_drained, Sample.records_store]
    constructor
    · rintro ⟨-, -, p, hp, hstopped⟩
      simp only [Function.update_apply, ite_eq_iff, Option.some.injEq] at hp
      rcases hp with ⟨rfl, -⟩ | ⟨-, ⟨-, rfl⟩ | ⟨-, ⟨-, rfl⟩ | ⟨-, hnone⟩⟩⟩
      · rfl
      · cases hstopped
      · cases hstopped
      · cases hnone
    · rintro rfl
      exact ⟨by decide, by decide, Sample.idle, by simp, rfl⟩
  obtain ⟨s', h, -⟩ := (Edit.cutOver_exact Sample.keyed_drained plan 9).2 _ _ _ _ hcuts
  rw [hled, hrestarted, Set.ncard_singleton, Set.ncard_singleton] at h
  exact ⟨Sample.keyed_drained, s', h⟩

namespace Edit

theorem retire_succeeds_iff (hs : s.Keyed) (now : Time) (stopOthers : Bool) :
    (∃ change s', (Edit.retire stopOthers).apply plan now s = (.ok change, s')) ↔
      ∃ d old, plan.Current s.records d old ∧ old.instances = 1 := by
  constructor
  · rintro ⟨change, s', h⟩
    have heffect := (effect_of_apply hs h).2
    cases stopOthers with
    | false =>
        obtain ⟨d, old, current, last, -⟩ := heffect.retire_cases
        exact ⟨d, old, current, last⟩
    | true =>
        obtain ⟨d, old, _, current, last, -⟩ := heffect.retireAlone_cases hs
        exact ⟨d, old, current, last⟩
  · rintro ⟨d, old, current, last⟩
    exact apply_of_succeeds (Plan.succeeds_retire hs current last)

section Retirement

variable {d : Deployment} {old : AppProcess}

theorem apply_retire (hs : s.Keyed) (current : plan.Current s.records d old)
    (last : old.instances = 1) :
    ∃ s', (Edit.retire false).apply plan now s = (.ok (.retired 0), s') ∧ s'.Keyed ∧
      s'.records = plan.afterRetirement now old s.records ∧
      s.SameOutside ((Edit.retire false).footprint plan d s.records) s' ∧
      s'.processes.find? plan.new = s.processes.find? plan.new := by
  obtain ⟨change, s', h⟩ := (retire_succeeds_iff hs now false).mpr ⟨d, old, current, last⟩
  obtain ⟨hkeyed, heffect⟩ := effect_of_apply hs h
  obtain ⟨d', old', current', -, rfl, hrecords⟩ := heffect.retire_cases
  obtain ⟨-, rfl⟩ := current.unique current'
  have hrows := sameOutside_apply hs h current.deployment
  exact ⟨s', h, hkeyed, hrecords, hrows, find?_new_of_retire hs current.distinct hrows⟩

theorem apply_retireAlone (hs : s.Keyed) (current : plan.Current s.records d old)
    (last : old.instances = 1) :
    ∃ siblings s',
      (Edit.retire true).apply plan now s = (.ok (.retired (.ofNat siblings.length)), s') ∧
      s'.Keyed ∧
      Lists s.records.process (fun p => p.app = d.app ∧ p.guid ≠ plan.old ∧ p.guid ≠ plan.new ∧
        p.state = .started) siblings ∧
      s'.records = plan.afterLoneRetirement now d old siblings s.records ∧
      s.SameOutside ((Edit.retire true).footprint plan d s.records) s' ∧
      s'.processes.find? plan.new = s.processes.find? plan.new := by
  obtain ⟨change, s', h⟩ := (retire_succeeds_iff hs now true).mpr ⟨d, old, current, last⟩
  obtain ⟨hkeyed, heffect⟩ := effect_of_apply hs h
  obtain ⟨d', old', siblings, current', -, hlists, rfl, hrecords⟩ := heffect.retireAlone_cases hs
  obtain ⟨rfl, rfl⟩ := current.unique current'
  have hrows := sameOutside_apply hs h current.deployment
  exact ⟨siblings, s', h, hkeyed, hlists, hrecords, hrows,
    find?_new_of_retire hs current.distinct hrows⟩

end Retirement

/-- A retirement succeeds exactly if the old process has one instance left. Only with the option does
it stop the siblings and write the row of the deployment. -/
theorem retirement_exact (hs : s.Keyed) (plan : Plan) (now : Time) :
    (∀ stopOthers, (∃ change s', (Edit.retire stopOthers).apply plan now s = (.ok change, s')) ↔
        ∃ d old, plan.Current s.records d old ∧ old.instances = 1) ∧
      ∀ d old, plan.Current s.records d old → old.instances = 1 →
        (∃ s', (Edit.retire false).apply plan now s = (.ok (.retired 0), s') ∧ s'.Keyed ∧
          s'.records = plan.afterRetirement now old s.records ∧
          s.SameOutside ((Edit.retire false).footprint plan d s.records) s' ∧
          s'.processes.find? plan.new = s.processes.find? plan.new) ∧
        ∃ siblings s',
          (Edit.retire true).apply plan now s = (.ok (.retired (.ofNat siblings.length)), s') ∧
          s'.Keyed ∧
          Lists s.records.process (fun p => p.app = d.app ∧ p.guid ≠ plan.old ∧
            p.guid ≠ plan.new ∧ p.state = .started) siblings ∧
          s'.records = plan.afterLoneRetirement now d old siblings s.records ∧
          s.SameOutside ((Edit.retire true).footprint plan d s.records) s' ∧
          s'.processes.find? plan.new = s.processes.find? plan.new :=
  ⟨retire_succeeds_iff hs now, fun _ _ current last =>
    ⟨apply_retire hs current last, apply_retireAlone hs current last⟩⟩

end Edit

theorem Edit.retirement_exact_sample :
    let plan : Plan := ⟨"rollout", "shop-1", "shop-2"⟩
    Sample.staffed.Keyed ∧ plan.Current Sample.staffed.records Sample.deployment (Sample.web 1) ∧
      ∃ (siblings : List AppProcess) (s' : Store), (Edit.retire true).apply plan 9 Sample.staffed =
        (.ok (.retired (.ofNat siblings.length)), s') ∧ Sample.worker ∈ siblings := by
  intro plan
  have hcurrent : plan.Current Sample.staffed.records Sample.deployment (Sample.web 1) := by
    rw [Sample.records_staffed, Sample.records_store]
    exact ⟨by decide, rfl, rfl, rfl, rfl⟩
  have hworker : Sample.staffed.records.process "shop-3" = some Sample.worker := by
    simp [Sample.records_staffed]
  obtain ⟨-, siblings, s', h, -, hlists, -⟩ :=
    (Edit.retirement_exact Sample.keyed_staffed plan 9).2 _ _ hcurrent rfl
  have hmem := (hlists.mem_iff Sample.worker).mpr ⟨_, hworker, by decide⟩
  exact ⟨Sample.keyed_staffed, hcurrent, siblings, s', h, hmem⟩

end Rollout
