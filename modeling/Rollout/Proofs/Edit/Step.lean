import Rollout.Proofs.Edit.Effect

/-!
# Steps, taken apart

A step succeeds exactly when the deployment is under way and both processes have the instances
that were planned, with one to give and room for one more.
-/

namespace Rollout.Plan

open Transaction

variable {plan : Plan} {now : Time} {s s' : Store} {e : StoreError} {change : Change}
  {expectedOld expectedNew : UInt32}

/-- What a step found, and the store that it left. -/
theorem step_ok (hs : s.Keyed) (h : plan.step expectedOld expectedNew now s = (.ok change, s')) :
    ∃ d old new, plan.Current s.records d old ∧ s.records.process plan.new = some new ∧
      (old.instances = expectedOld ∧ new.instances = expectedNew ∧ expectedOld ≠ 0 ∧
        new.instances.toNat + 1 < UInt32.size ∧
        change = .stepped (old.instances - 1) (new.instances + 1)) ∧
      s' = (s.put { old with instances := old.instances - 1, updatedAt := now }).put
        { new with instances := new.instances + 1, updatedAt := now } := by
  simp only [step, bind_ok, distinct_ok, expect_ok, underWay_ok hs, require_ok hs,
    AppProcess.expectCount_ok, Store.record_process, and_assoc, exists_and_left,
    exists_eq_left', exists_const] at h
  obtain ⟨hne, hmove, d, hd, hdeploying, hwebish, old, hold, new, hnew, hcount, hcount', h⟩ := h
  refine ⟨d, old, new, ⟨hne, hd, hdeploying, hwebish, hold⟩, hnew, ?_⟩
  split at h
  · next hroom =>
      simp only [bind_ok, put_ok, pure_ok, exists_eq_left', exists_and_left, exists_const] at h
      obtain ⟨rfl, rfl⟩ := h
      exact ⟨⟨hcount, hcount', of_decide_eq_true hmove, hroom, rfl⟩, rfl⟩
  · exact absurd h throw_ok

theorem step_effect (hs : s.Keyed)
    (h : plan.step expectedOld expectedNew now s = (.ok change, s')) :
    s'.Keyed ∧
      Edit.Effect plan now s.records (.step expectedOld expectedNew) change s'.records := by
  obtain ⟨d, old, new, hcurrent, hnew, ⟨rfl, rfl, hmove, hroom, rfl⟩, rfl⟩ := step_ok hs h
  refine ⟨(hs.put _).put _, ?_⟩
  have heffect : Edit.Effect plan now _ _ _ _ := .step hcurrent hnew hmove hroom
  rw [afterStep, ← hs.guid_process hcurrent.old, ← hs.guid_process hnew] at heffect
  simpa using heffect

theorem succeeds_step (hs : s.Keyed) {d : Deployment} {old new : AppProcess}
    (current : plan.Current s.records d old) (target : s.records.process plan.new = some new)
    (left : old.instances ≠ 0) (room : new.instances.toNat + 1 < UInt32.size) :
    Succeeds (plan.step old.instances new.instances now) s := by
  obtain ⟨hne, hd, hdeploying, hwebish, hold⟩ := current
  apply Succeeds.bind (a := ()) (distinct_ok.mpr ⟨hne, rfl⟩)
  apply Succeeds.bind (a := ()) (expect_ok.mpr ⟨decide_eq_true left, rfl⟩)
  apply Succeeds.bind ((underWay_ok hs).mpr ⟨hd, hdeploying, hwebish, rfl⟩)
  apply Succeeds.bind ((require_ok hs).mpr ⟨hold, rfl⟩)
  apply Succeeds.bind ((require_ok hs).mpr ⟨target, rfl⟩)
  apply Succeeds.bind (a := ()) (AppProcess.expectCount_ok.mpr ⟨rfl, rfl⟩)
  apply Succeeds.bind (a := ()) (AppProcess.expectCount_ok.mpr ⟨rfl, rfl⟩)
  rw [if_pos room]
  apply Succeeds.bind (a := ()) (put_ok.mpr rfl)
  apply Succeeds.bind (a := ()) (put_ok.mpr rfl)
  exact succeeds_pure _

theorem failsInConflict_step (hs : s.Keyed) {d : Deployment} {old new : AppProcess}
    (hd : s.records.deployment plan.deployment = some d)
    (hold : s.records.process plan.old = some old) (hnew : s.records.process plan.new = some new)
    (room : new.instances.toNat + 1 < UInt32.size) :
    FailsInConflict (plan.step expectedOld expectedNew now) s := by
  apply FailsInConflict.bind (failsInConflict_expect _ _)
  intro _ _ h
  obtain ⟨_, rfl⟩ := distinct_ok.mp h
  apply FailsInConflict.bind (failsInConflict_expect _ _)
  intro _ _ h
  obtain ⟨_, rfl⟩ := expect_ok.mp h
  apply FailsInConflict.bind (failsInConflict_underWay hs hd)
  intro _ _ h
  obtain ⟨_, _, _, rfl⟩ := (underWay_ok hs).mp h
  apply FailsInConflict.bind (failsInConflict_require hs hold)
  intro old' _ h
  obtain ⟨_, rfl⟩ := (require_ok hs).mp h
  apply FailsInConflict.bind (failsInConflict_require hs hnew)
  intro new' _ h
  obtain ⟨hnew', rfl⟩ := (require_ok hs).mp h
  apply FailsInConflict.bind (failsInConflict_expect _ _)
  intro _ _ _
  apply FailsInConflict.bind (failsInConflict_expect _ _)
  intro _ _ _
  obtain rfl : new' = new := Option.some.inj (hnew'.symm.trans hnew)
  rw [if_pos room]
  apply FailsInConflict.bind (failsInConflict_put _)
  intro _ _ _
  apply FailsInConflict.bind (failsInConflict_put _)
  intro _ _ _
  exact failsInConflict_pure _

end Rollout.Plan
