import Rollout.Proofs.Progress
import Mathlib.Algebra.BigOperators.Group.Finset.Basic
import Mathlib.Algebra.BigOperators.Group.Finset.Piecewise

/-!
# Instances that an edit moves

An edit takes at most one instance, and takes it from the old process; only a step gives one, and
gives it to the new process. So a step leaves as many instances in all as there were.
-/

namespace Rollout

/-- How many instances the edit takes from the old process. -/
def Edit.takes : Edit → Nat
  | .step _ _ | .retire _ => 1
  | .cutOver => 0

/-- How many instances the edit gives to the new process. -/
def Edit.gives : Edit → Nat
  | .step _ _ => 1
  | .retire _ | .cutOver => 0

/-- The instances of all processes together. -/
def Store.headcount (s : Store) : Nat := ∑ key ∈ s.processes.keys.toFinset, s.records.count key

namespace Records

variable {v w : Records} {key : Guid}

theorem count_congr (h : w.shape key = v.shape key) : w.count key = v.count key := by
  have hcount : ∀ u : Records, u.count key = ((u.shape key).map (·.instances.toNat)).getD 0 := by
    intro u
    rw [count, shape, Option.map_map]
    rfl
  rw [hcount, hcount, h]

theorem count_of_process {p : AppProcess} (h : v.process key = some p) :
    v.count key = p.instances.toNat :=
  count_of_shape (shape_of_process h)

theorem count_of_none (h : v.process key = none) : v.count key = 0 := by
  rw [count, h]
  rfl

end Records

theorem Store.headcount_eq_sum {s : Store} {keys : Finset Guid}
    (h : s.processes.keys.toFinset ⊆ keys) : s.headcount = ∑ key ∈ keys, s.records.count key := by
  apply Finset.sum_subset h
  intro key _ hkey
  apply Records.count_of_none
  have hrow : s.processes.find? key = none := by
    cases hfind : s.processes.find? key with
    | none => rfl
    | some bytes =>
        have hmem : key ∈ s.processes.keys :=
          List.mem_map.mpr ⟨_, Table.find?_eq_some_iff.mp hfind, rfl⟩
        exact absurd (List.mem_toFinset.mpr hmem) hkey
  change (s.processes.find? key).bind Record.decode? = none
  rw [hrow, Option.bind_none]

namespace Edit.Effect

variable {plan : Plan} {now : Time} {v w : Records} {e : Edit} {change : Change} {key : Guid}

theorem count_of_ne (h : Effect plan now v e change w) (hold : key ≠ plan.old)
    (hnew : key ≠ plan.new) : w.count key = v.count key :=
  Records.count_congr (h.shape_of_ne hold hnew)

theorem count_old (h : Effect plan now v e change w) :
    w.count plan.old + e.takes = v.count plan.old := by
  have hbefore : v.count plan.old = e.dueAt := congrArg (fun p => (ofLex p).2) h.remaining_before
  by_cases hcut : e = .cutOver
  · subst hcut
    rw [hbefore, Records.count_of_none h.old_gone]
    rfl
  · have htakes : e.takes = 1 := by
      cases e with
      | step | retire => rfl
      | cutOver => exact absurd rfl hcut
    rw [htakes, h.count_after hcut, hbefore]

theorem count_new (h : Effect plan now v e change w) :
    w.count plan.new = v.count plan.new + e.gives := by
  obtain ⟨_, _, hcurrent⟩ := h.current
  have hne := hcurrent.distinct.symm
  cases h with
  | @step d old new current target left room =>
      have hshape : (plan.afterStep now old new v).shape plan.new =
          some { new.shape with instances := new.instances + 1 } := by
        simp
      rw [Records.count_of_shape hshape, Records.count_of_process target]
      change (new.instances + 1).toNat = new.instances.toNat + 1
      rw [UInt32.toNat_add, UInt32.toNat_one, Nat.mod_eq_of_lt room]
  | retire current => exact Records.count_congr (by simp [hne])
  | retireAlone current => exact Records.count_congr (by simp [hne])
  | @cutOver d app old new routes restarted current owner web none_left target =>
      have hshape : (plan.afterCutOver now d app new v).shape plan.new =
          some { new.shape with kind := webKind } := by
        simp
      rw [Records.count_of_shape hshape, Records.count_of_process target]
      rfl

/-- Of all processes only the old one may be left with fewer instances, and with one fewer. -/
theorem count_le (h : Effect plan now v e change w) (key : Guid) :
    v.count key ≤ w.count key + if key = plan.old then e.takes else 0 := by
  by_cases hold : key = plan.old
  · rw [if_pos hold, hold, h.count_old]
  · rw [if_neg hold, Nat.add_zero]
    by_cases hnew : key = plan.new
    · rw [hnew, h.count_new]
      exact Nat.le_add_right _ _
    · rw [h.count_of_ne hold hnew]

theorem headcount {s s' : Store} (h : Effect plan now s.records e change s'.records) :
    s'.headcount + e.takes = s.headcount + e.gives := by
  obtain ⟨_, _, hcurrent⟩ := h.current
  let keys : Finset Guid :=
    {plan.old, plan.new} ∪ (s.processes.keys.toFinset ∪ s'.processes.keys.toFinset)
  have hold : plan.old ∈ keys := by simp [keys]
  have hnew : plan.new ∈ keys := by simp [keys]
  have hpoint : ∀ key, s'.records.count key + (if plan.old = key then e.takes else 0) =
      s.records.count key + if plan.new = key then e.gives else 0 := by
    intro key
    by_cases hkold : plan.old = key
    · subst hkold
      rw [if_pos rfl, if_neg hcurrent.distinct.symm, h.count_old]
      rfl
    · by_cases hknew : plan.new = key
      · subst hknew
        rw [if_neg hkold, if_pos rfl, h.count_new]
        rfl
      · rw [if_neg hkold, if_neg hknew, h.count_of_ne (Ne.symm hkold) (Ne.symm hknew)]
  have hs : s.headcount = ∑ key ∈ keys, s.records.count key :=
    Store.headcount_eq_sum (Finset.subset_union_left.trans Finset.subset_union_right)
  have hs' : s'.headcount = ∑ key ∈ keys, s'.records.count key :=
    Store.headcount_eq_sum (Finset.subset_union_right.trans Finset.subset_union_right)
  have hsum := Finset.sum_congr (rfl : keys = keys) fun key _ => hpoint key
  rw [Finset.sum_add_distrib, Finset.sum_add_distrib, Finset.sum_ite_eq, Finset.sum_ite_eq,
    if_pos hold, if_pos hnew, ← hs, ← hs'] at hsum
  exact hsum

end Edit.Effect
end Rollout
