import Rollout.Proofs.Edit.Effect

/-!
# Retirements, taken apart

A retirement succeeds exactly when the deployment is under way and the old process has one
instance. With the other processes it changes nothing but their state.
-/

namespace Rollout.Plan

open Transaction

variable {plan : Plan} {now : Time} {s s' : Store} {change : Change} {stopOthers : Bool}

/-- The store when the old process has no instance left. -/
def emptied (now : Time) (old : AppProcess) (s : Store) : Store :=
  s.put { old with instances := 0, updatedAt := now }

/-- The other processes that a retirement stops, in the order of their keys. -/
def siblings (plan : Plan) (app : Guid) (s : Store) : List AppProcess :=
  (s.processes.records AppProcess).filter (plan.isSibling app)

theorem mem_siblings (hs : s.Keyed) {old : AppProcess} (hold : old.guid = plan.old) (app : Guid)
    (p : AppProcess) : p ∈ plan.siblings app (emptied now old s) ↔
      s.records.process p.guid = some p ∧ plan.isSibling app p = true := by
  have hput : (emptied now old s).Keyed := hs.put _
  rw [siblings, List.mem_filter, Rows.mem_records hput.processes]
  apply and_congr_left
  intro hsibling
  have hne : p.guid ≠ old.guid := by
    rw [hold]
    intro heq
    simp [isSibling, heq] at hsibling
  change (emptied now old s).records.process p.guid = some p ↔ _
  simp [emptied, Function.update_of_ne hne]

/-- What a retirement found, and the store that it left. -/
theorem retire_ok (hs : s.Keyed) (h : plan.retire stopOthers now s = (.ok change, s')) :
    ∃ d old, plan.Current s.records d old ∧ old.instances = 1 ∧
      if stopOthers then
        let stopping := plan.siblings d.app (emptied now old s)
        change = .retired (.ofNat stopping.length) ∧
          s' = ((stopping.map (stopped now)).foldl Store.put (emptied now old s)).put
            { d with stopped := d.stopped ++ stopping.map AppProcess.guid, updatedAt := now }
      else change = .retired 0 ∧ s' = emptied now old s := by
  simp only [retire, bind_ok, distinct_ok, underWay_ok hs, require_ok hs,
    AppProcess.expectCount_ok, put_ok, Store.record_process, and_assoc, exists_and_left,
    exists_eq_left', exists_const] at h
  obtain ⟨hne, d, hd, hdeploying, hwebish, old, hold, hlast, h⟩ := h
  refine ⟨d, old, ⟨hne, hd, hdeploying, hwebish, hold⟩, hlast, ?_⟩
  cases stopOthers with
  | false =>
      obtain ⟨rfl, rfl⟩ := pure_ok.mp h
      exact ⟨rfl, rfl⟩
  | true =>
      have hput := hs.put { old with instances := 0, updatedAt := now }
      simp only [if_true, bind_ok, select_ok hput, forM_put_ok, put_ok, pure_ok, exists_eq_left',
        exists_and_left, exists_const, and_assoc] at h
      obtain ⟨rfl, rfl⟩ := h
      exact ⟨rfl, rfl⟩

theorem retire_effect (hs : s.Keyed) (h : plan.retire stopOthers now s = (.ok change, s')) :
    s'.Keyed ∧ Edit.Effect plan now s.records (.retire stopOthers) change s'.records := by
  obtain ⟨d, old, hcurrent, hlast, h⟩ := retire_ok hs h
  have hput : (emptied now old s).Keyed := hs.put _
  have hguid : old.guid = plan.old := hs.guid_process hcurrent.old
  cases stopOthers with
  | false =>
      obtain ⟨rfl, rfl⟩ := h
      refine ⟨hput, ?_⟩
      have heffect : Edit.Effect plan now _ _ _ _ := .retire hcurrent hlast
      rw [afterRetirement, ← hguid] at heffect
      rw [emptied, Store.records_put_process]
      exact heffect
  | true =>
      obtain ⟨rfl, rfl⟩ := h
      refine ⟨(hput.foldl_put _).put _, ?_⟩
      have heffect : Edit.Effect plan now _ _ _ _ := .retireAlone hcurrent hlast
        (Rows.ascending_filter_records hput.processes (plan.isSibling d.app))
        (mem_siblings hs hguid d.app)
      rw [afterLoneRetirement, afterRetirement, ← hguid,
        ← hs.guid_deployment hcurrent.deployment] at heffect
      have hrewrite := Store.records_rewrite_processes hput (plan.isSibling d.app)
        (stopped now) fun _ => rfl
      rw [emptied, Store.records_put_process] at hrewrite
      rw [Store.records_put_deployment, siblings, emptied, hrewrite]
      exact heffect

theorem succeeds_retire (hs : s.Keyed) {d : Deployment} {old : AppProcess}
    (current : plan.Current s.records d old) (last : old.instances = 1) :
    Succeeds (plan.retire stopOthers now) s := by
  obtain ⟨hne, hd, hdeploying, hwebish, hold⟩ := current
  have hput := hs.put { old with instances := 0, updatedAt := now }
  apply Succeeds.bind (a := ()) (distinct_ok.mpr ⟨hne, rfl⟩)
  apply Succeeds.bind ((underWay_ok hs).mpr ⟨hd, hdeploying, hwebish, rfl⟩)
  apply Succeeds.bind ((require_ok hs).mpr ⟨hold, rfl⟩)
  apply Succeeds.bind (a := ()) (AppProcess.expectCount_ok.mpr ⟨last, rfl⟩)
  apply Succeeds.bind (a := ()) (put_ok.mpr rfl)
  split
  · apply Succeeds.bind ((select_ok hput).mpr ⟨rfl, rfl⟩)
    apply Succeeds.bind forM_put
    apply Succeeds.bind (a := ()) (put_ok.mpr rfl)
    exact succeeds_pure _
  · exact succeeds_pure _

theorem failsInConflict_retire (hs : s.Keyed) {d : Deployment} {old : AppProcess}
    (hd : s.records.deployment plan.deployment = some d)
    (hold : s.records.process plan.old = some old) :
    FailsInConflict (plan.retire stopOthers now) s := by
  apply FailsInConflict.bind (failsInConflict_expect _ _)
  intro _ _ h
  obtain ⟨_, rfl⟩ := distinct_ok.mp h
  apply FailsInConflict.bind (failsInConflict_underWay hs hd)
  intro d' _ h
  obtain ⟨_, _, _, rfl⟩ := (underWay_ok hs).mp h
  apply FailsInConflict.bind (failsInConflict_require hs hold)
  intro old' _ h
  obtain ⟨_, rfl⟩ := (require_ok hs).mp h
  apply FailsInConflict.bind (failsInConflict_expect _ _)
  intro _ _ h
  obtain ⟨_, rfl⟩ := expect_ok.mp h
  apply FailsInConflict.bind (failsInConflict_put _)
  intro _ _ h
  obtain rfl := put_ok.mp h
  split
  · apply FailsInConflict.bind (failsInConflict_select (hs.put _) _)
    intro _ _ _
    apply FailsInConflict.bind failsInConflict_forM_put
    intro _ _ _
    apply FailsInConflict.bind (failsInConflict_put _)
    intro _ _ _
    exact failsInConflict_pure _
  · exact failsInConflict_pure _

end Rollout.Plan
