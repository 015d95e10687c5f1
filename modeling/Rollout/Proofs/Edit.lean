import Rollout.Proofs.Edit.CutOver
import Rollout.Proofs.Edit.Frame
import Rollout.Proofs.Edit.Retirement
import Rollout.Proofs.Edit.Step

/-!
# Edits and sequences of edits

An edit applied to a store in good order leaves one, and what it changed is one of the three
effects. An edit that fails changes nothing, whatever the store holds.
-/

namespace Rollout

open Transaction

namespace Edit

variable {e : Edit} {plan : Plan} {now : Time} {s s' : Store} {change : Change} {v : Records}

theorem effect_of_apply (hs : s.Keyed) (h : e.apply plan now s = (.ok change, s')) :
    s'.Keyed ∧ Effect plan now s.records e change s'.records := by
  have hrun := Store.commit_ok.mp h
  cases e with
  | step expectedOld expectedNew => exact Plan.step_effect hs hrun
  | retire stopOthers => exact Plan.retire_effect hs hrun
  | cutOver => exact Plan.cutOver_effect hs hrun

theorem store_of_apply_error {reason : StoreError}
    (h : e.apply plan now s = (.error reason, s')) : s = s' :=
  (Store.commit_error.mp h).2

/-- Either the edit succeeds with one of the effects, or the store is as it was. -/
theorem apply_cases (hs : s.Keyed) (e : Edit) (plan : Plan) (now : Time) :
    (∃ change s', e.apply plan now s = (.ok change, s') ∧ s'.Keyed ∧
      Effect plan now s.records e change s'.records) ∨
    ∃ reason, e.apply plan now s = (.error reason, s) := by
  rcases h : e.apply plan now s with ⟨reason | change, s'⟩
  · obtain rfl := store_of_apply_error h
    exact .inr ⟨reason, rfl⟩
  · exact .inl ⟨change, s', rfl, effect_of_apply hs h⟩

theorem keyed_apply (hs : s.Keyed) (e : Edit) (plan : Plan) (now : Time) :
    (e.apply plan now s).2.Keyed := by
  rcases apply_cases hs e plan now with ⟨change, s', h, hkeyed, _⟩ | ⟨reason, h⟩
  · rw [h]
    exact hkeyed
  · rw [h]
    exact hs

theorem apply_of_succeeds (h : Succeeds (e.transaction plan now) s) :
    ∃ change s', e.apply plan now s = (.ok change, s') := by
  obtain ⟨change, s', hrun⟩ := h
  exact ⟨change, s', Store.commit_ok.mpr hrun⟩

theorem apply_of_effect (hs : s.Keyed) (h : Effect plan now s.records e change v) :
    ∃ change s', e.apply plan now s = (.ok change, s') := by
  apply apply_of_succeeds
  cases h with
  | step current target left room => exact Plan.succeeds_step hs current target left room
  | retire current last => exact Plan.succeeds_retire hs current last
  | retireAlone current last => exact Plan.succeeds_retire hs current last
  | cutOver current owner web none_left target =>
      exact Plan.succeeds_cutOver hs current owner web none_left target

theorem conflict_of_apply_error (hs : s.Keyed) {d : Deployment} {app : App} {old new : AppProcess}
    (hd : s.records.deployment plan.deployment = some d) (happ : s.records.app d.app = some app)
    (hold : s.records.process plan.old = some old) (hnew : s.records.process plan.new = some new)
    (room : new.instances.toNat + 1 < UInt32.size) {reason : StoreError}
    (h : e.apply plan now s = (.error reason, s')) : ∃ conflict, reason = .conflict conflict := by
  obtain ⟨⟨working, hrun⟩, _⟩ := Store.commit_error.mp h
  cases e with
  | step expectedOld expectedNew =>
      exact Plan.failsInConflict_step hs hd hold hnew room _ _ hrun
  | retire stopOthers => exact Plan.failsInConflict_retire hs hd hold _ _ hrun
  | cutOver => exact Plan.failsInConflict_cutOver hs hd happ hold hnew _ _ hrun

end Edit

namespace Call

@[simp] theorem after_nil (s : Store) : after [] s = s := rfl

@[simp] theorem after_concat (calls : List Call) (call : Call) (s : Store) :
    after (calls ++ [call]) s = (call.run (after calls s)).2 := by
  simp [after]

theorem keyed_after {s : Store} (hs : s.Keyed) (calls : List Call) : (after calls s).Keyed := by
  induction calls using List.reverseRecOn with
  | nil => exact hs
  | append_singleton calls call ih =>
      rw [after_concat]
      exact Edit.keyed_apply ih call.edit call.plan call.now

/-- What every effect preserves, every sequence of calls preserves. -/
theorem after_invariant (invariant : Records → Prop) {s : Store} (hs : s.Keyed)
    (hinit : invariant s.records)
    (hstep : ∀ (s₁ s₂ : Store) (call : Call) change, s₁.Keyed → invariant s₁.records →
      Edit.Effect call.plan call.now s₁.records call.edit change s₂.records →
      invariant s₂.records) (calls : List Call) : invariant (after calls s).records := by
  induction calls using List.reverseRecOn with
  | nil => exact hinit
  | append_singleton calls call ih =>
      have hkeyed := keyed_after hs calls
      rw [after_concat, run]
      rcases Edit.apply_cases hkeyed call.edit call.plan call.now with
        ⟨change, s', h, _, heffect⟩ | ⟨reason, h⟩
      · rw [h]
        exact hstep _ _ call change hkeyed ih heffect
      · rw [h]
        exact ih

end Call
end Rollout
