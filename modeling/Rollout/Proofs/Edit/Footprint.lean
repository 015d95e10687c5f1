import Rollout.Proofs.Edit.CutOver
import Rollout.Proofs.Edit.Retirement
import Rollout.Proofs.Edit.Step
import Rollout.Proofs.Footprint

/-!
# The rows that an edit writes

A step writes two rows, and a retirement that stops no other process writes one. What the other
edits write depends on the records: a retirement may stop processes, and a cut-over moves routes
and starts processes again.
-/

namespace Rollout

open Transaction

namespace Plan

/-- The keys of the processes that a retirement stops with the old one. -/
def siblingKeys (plan : Plan) (app : Guid) (v : Records) : Set Guid :=
  {key | ∃ p, v.process key = some p ∧ plan.isSibling app p = true}

/-- The keys of the routes that lead to the old process. -/
def ledKeys (plan : Plan) (v : Records) : Set Guid :=
  {key | ∃ r, v.route key = some r ∧ r.process = plan.old}

/-- The keys of the processes that a cut-over starts again, once the old process is gone. -/
def restartedKeys (plan : Plan) (d : Deployment) (v : Records) : Set Guid :=
  {key | key ∈ d.stopped ∧ key ≠ plan.old ∧ ∃ p, v.process key = some p ∧ p.state = .stopped}

end Plan

/-- The rows that an edit for this deployment may write. -/
def Edit.footprint (plan : Plan) (d : Deployment) (v : Records) : Edit → Footprint
  | .step _ _ => ⟨∅, {plan.old, plan.new}, ∅, ∅⟩
  | .retire false => ⟨∅, {plan.old}, ∅, ∅⟩
  | .retire true => ⟨∅, {plan.old} ∪ plan.siblingKeys d.app v, {plan.deployment}, ∅⟩
  | .cutOver =>
    ⟨{d.app}, {plan.old, plan.new} ∪ plan.restartedKeys d v, {plan.deployment}, plan.ledKeys v⟩

namespace Plan

variable {plan : Plan} {now : Time} {f : Footprint} {s s' working : Store} {change : Change}
  {stopOthers : Bool} {expectedOld expectedNew : UInt32} {d : Deployment}

theorem sameOutside_step (hs : s.Keyed)
    (h : plan.step expectedOld expectedNew now s = (.ok change, s')) :
    s.SameOutside ((Edit.step expectedOld expectedNew).footprint plan d s.records) s' := by
  obtain ⟨_, old, new, hcurrent, hnew, -, rfl⟩ := step_ok hs h
  have hlost : old.guid = plan.old := hs.guid_process hcurrent.old
  have hwon : new.guid = plan.new := hs.guid_process hnew
  refine ((Store.SameOutside.refl _ s).put_process ?_).put_process ?_
  · exact .inl hlost
  · exact .inr hwon

theorem sameOutside_retire (hs : s.Keyed) (h : plan.retire stopOthers now s = (.ok change, s'))
    (hd : s.records.deployment plan.deployment = some d) :
    s.SameOutside ((Edit.retire stopOthers).footprint plan d s.records) s' := by
  obtain ⟨_, old, hcurrent, -, h⟩ := retire_ok hs h
  obtain rfl := Option.some.inj (hd.symm.trans hcurrent.deployment)
  have hguid : old.guid = plan.old := hs.guid_process hcurrent.old
  have hdeployment : d.guid = plan.deployment := hs.guid_deployment hd
  cases stopOthers with
  | false =>
      obtain ⟨-, rfl⟩ := h
      exact (Store.SameOutside.refl _ s).put_process hguid
  | true =>
      obtain ⟨-, rfl⟩ := h
      have hemptied : s.SameOutside ((Edit.retire true).footprint plan d s.records)
          (emptied now old s) := (Store.SameOutside.refl _ s).put_process (.inl hguid)
      refine (hemptied.foldl_put ?_).put_deployment hdeployment
      intro q hq working hworking
      obtain ⟨p, hp, rfl⟩ := List.mem_map.mp hq
      obtain ⟨hrecord, hsibling⟩ := (mem_siblings hs hguid d.app p).mp hp
      exact hworking.put_process (.inr ⟨p, hrecord, hsibling⟩)

theorem sameOutside_restart (hw : working.Keyed) {keys : List Guid} {n : UInt32}
    (hkeys : ∀ key ∈ keys, (∃ p, working.records.process key = some p ∧ p.state = .stopped) →
      key ∈ f.processes) (h : s.SameOutside f working)
    (hrun : restart now keys working = (.ok n, s')) : s.SameOutside f s' := by
  induction keys generalizing working n with
  | nil =>
      obtain ⟨-, rfl⟩ := pure_ok.mp hrun
      exact h
  | cons g keys ih =>
      have hlater : ∀ key ∈ keys, (∃ p, working.records.process key = some p ∧
          p.state = .stopped) → key ∈ f.processes :=
        fun key hkey => hkeys key (List.mem_cons_of_mem _ hkey)
      rw [restart, bind_ok] at hrun
      obtain ⟨found, _, hfound, hrun⟩ := hrun
      obtain ⟨hg, rfl⟩ := (lookup_ok hw).mp hfound
      cases found with
      | none => exact ih hw hlater h hrun
      | some p =>
          by_cases hstopped : p.state = .stopped
          · simp only [if_pos hstopped, bind_ok, put_ok, exists_eq_left', exists_const] at hrun
            obtain ⟨m, started, hrun, hpure⟩ := hrun
            obtain ⟨-, rfl⟩ := pure_ok.mp hpure
            obtain rfl : p.guid = g := hw.guid_process hg
            have hput := h.put_process (p := { p with state := .started, updatedAt := now })
              (hkeys p.guid List.mem_cons_self ⟨p, hg, hstopped⟩)
            refine ih (hw.put _) ?_ hput hrun
            -- What was started is no longer a stopped process, so it is not written twice.
            rintro key hkey ⟨q, hq, hqs⟩
            simp only [Store.records_put_process] at hq
            by_cases hne : key = p.guid
            · rw [hne, Function.update_self, Option.some.injEq] at hq
              subst hq
              cases hqs
            · rw [Function.update_of_ne hne] at hq
              exact hlater key hkey ⟨q, hq, hqs⟩
          · simp only [if_neg hstopped] at hrun
            exact ih hw hlater h hrun

theorem sameOutside_followed (hs : s.Keyed) {app : App} {new : AppProcess}
    (happ : s.records.app d.app = some app) (hnew : s.records.process plan.new = some new) :
    s.SameOutside (Edit.cutOver.footprint plan d s.records) (followed plan now app new s) := by
  have happKey : app.guid = d.app := hs.guid_app happ
  have hnewKey : new.guid = plan.new := hs.guid_process hnew
  have hreplaced : s.SameOutside (Edit.cutOver.footprint plan d s.records)
      (replaced plan now app new s) := by
    refine (((Store.SameOutside.refl _ s).drop_process ?_).put_process ?_).put_app ?_
    · exact .inl (.inl rfl)
    · exact .inl (.inr hnewKey)
    · exact happKey
  apply hreplaced.foldl_put
  intro moved hmoved working hworking
  obtain ⟨r, hr, rfl⟩ := List.mem_map.mp hmoved
  rw [List.mem_filter, Rows.mem_records hs.routes, decide_eq_true_iff] at hr
  exact hworking.put_route ⟨r, hr.1, hr.2⟩

theorem sameOutside_cutOver (hs : s.Keyed) (h : plan.cutOver now s = (.ok change, s'))
    (hd : s.records.deployment plan.deployment = some d) :
    s.SameOutside (Edit.cutOver.footprint plan d s.records) s' := by
  obtain ⟨_, app, old, new, restarted, started, hcurrent, happ, -, -, hnew, hrestart, -, -, rfl⟩ :=
    cutOver_ok hs h
  obtain rfl := Option.some.inj (hd.symm.trans hcurrent.deployment)
  have hdeployment : d.guid = plan.deployment := hs.guid_deployment hd
  have hstarted : s.SameOutside (Edit.cutOver.footprint plan d s.records) started := by
    refine sameOutside_restart (keyed_followed hs plan now app new) ?_
      (sameOutside_followed hs happ hnew) hrestart
    intro key hkey hstopped
    rw [records_followed hs now happ hnew, stopped_followed hcurrent.distinct hnew] at hstopped
    exact .inr ⟨hkey, hstopped⟩
  exact hstarted.put_deployment hdeployment

end Plan

theorem Edit.sameOutside_apply {e : Edit} {plan : Plan} {now : Time} {s s' : Store}
    {change : Change} {d : Deployment} (hs : s.Keyed) (h : e.apply plan now s = (.ok change, s'))
    (hd : s.records.deployment plan.deployment = some d) :
    s.SameOutside (e.footprint plan d s.records) s' := by
  have hrun := Store.commit_ok.mp h
  cases e with
  | step expectedOld expectedNew => exact Plan.sameOutside_step hs hrun
  | retire stopOthers => exact Plan.sameOutside_retire hs hrun hd
  | cutOver => exact Plan.sameOutside_cutOver hs hrun hd

end Rollout
