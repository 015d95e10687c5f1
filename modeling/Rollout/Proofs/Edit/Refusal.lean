import Rollout.Proofs.Edit.Count
import Rollout.Proofs.Edit.Footprint

/-!
# Why a step is refused

A step makes its checks in a fixed order and is refused by the first that does not hold. If all of
them hold it moves one instance, and the instances of all processes together stay as many as they
were.
-/

namespace Rollout

open Transaction

theorem AppProcess.expectCount_error {p : AppProcess} {expected : UInt32} {s s' : Store}
    {e : StoreError} : p.expectCount expected s = (.error e, s') ↔
      p.instances ≠ expected ∧ e = .conflict (.count p.guid p.instances expected) ∧ s = s' := by
  rw [AppProcess.expectCount, expect_error, decide_eq_false_iff_not]

namespace Plan

variable {plan : Plan} {now : Time} {expectedOld expectedNew : UInt32} {v : Records}
  {d : Deployment} {old new : AppProcess}

/-- What a step asks: both processes are there with the planned instances, the old one has one to
give, and the new one has room for it. -/
structure Steps (plan : Plan) (expectedOld expectedNew : UInt32) (v : Records) (d : Deployment)
    (old new : AppProcess) : Prop where
  current : plan.Current v d old
  target : v.process plan.new = some new
  some_left : expectedOld ≠ 0
  count_old : old.instances = expectedOld
  count_new : new.instances = expectedNew
  room : new.instances.toNat + 1 < UInt32.size

/-- The error that a step is refused with, by the first check that does not hold. -/
inductive RefusesStep (plan : Plan) (expectedOld expectedNew : UInt32) (v : Records) :
    StoreError → Prop where
  | oneProcess (same : plan.old = plan.new) :
      RefusesStep plan expectedOld expectedNew v (.conflict (.oneProcess plan.old))
  | nothingToMove (distinct : plan.old ≠ plan.new) (none_left : expectedOld = 0) :
      RefusesStep plan expectedOld expectedNew v (.conflict (.nothingToMove plan.old))
  | noDeployment (distinct : plan.old ≠ plan.new) (some_left : expectedOld ≠ 0)
      (missing : v.deployment plan.deployment = none) :
      RefusesStep plan expectedOld expectedNew v (.missing plan.deployment)
  | ended {d : Deployment} (distinct : plan.old ≠ plan.new) (some_left : expectedOld ≠ 0)
      (deployment : v.deployment plan.deployment = some d) (terminal : d.state ≠ .deploying) :
      RefusesStep plan expectedOld expectedNew v (.conflict (.ended plan.deployment d.state))
  | retargeted {d : Deployment} (distinct : plan.old ≠ plan.new) (some_left : expectedOld ≠ 0)
      (deployment : v.deployment plan.deployment = some d) (deploying : d.state = .deploying)
      (elsewhere : d.webish ≠ some plan.new) :
      RefusesStep plan expectedOld expectedNew v (.conflict (.retargeted plan.deployment plan.new))
  | noOld {d : Deployment} (distinct : plan.old ≠ plan.new) (some_left : expectedOld ≠ 0)
      (deployment : v.deployment plan.deployment = some d) (deploying : d.state = .deploying)
      (webish : d.webish = some plan.new) (missing : v.process plan.old = none) :
      RefusesStep plan expectedOld expectedNew v (.missing plan.old)
  | noNew {d : Deployment} {old : AppProcess} (current : plan.Current v d old)
      (some_left : expectedOld ≠ 0) (missing : v.process plan.new = none) :
      RefusesStep plan expectedOld expectedNew v (.missing plan.new)
  | countOld {d : Deployment} {old new : AppProcess} (current : plan.Current v d old)
      (some_left : expectedOld ≠ 0) (target : v.process plan.new = some new)
      (other : old.instances ≠ expectedOld) :
      RefusesStep plan expectedOld expectedNew v
        (.conflict (.count plan.old old.instances expectedOld))
  | countNew {d : Deployment} {old new : AppProcess} (current : plan.Current v d old)
      (some_left : expectedOld ≠ 0) (target : v.process plan.new = some new)
      (count_old : old.instances = expectedOld) (other : new.instances ≠ expectedNew) :
      RefusesStep plan expectedOld expectedNew v
        (.conflict (.count plan.new new.instances expectedNew))
  | full {d : Deployment} {old new : AppProcess} (current : plan.Current v d old)
      (some_left : expectedOld ≠ 0) (target : v.process plan.new = some new)
      (count_old : old.instances = expectedOld) (count_new : new.instances = expectedNew)
      (no_room : UInt32.size ≤ new.instances.toNat + 1) :
      RefusesStep plan expectedOld expectedNew v (.full plan.new)

variable {s s' : Store} {e : StoreError}

theorem distinct_error :
    plan.distinct s = (.error e, s') ↔
      plan.old = plan.new ∧ e = .conflict (.oneProcess plan.old) ∧ s = s' := by
  rw [distinct, expect_error, decide_eq_false_iff_not, not_not]

theorem underWay_error (hs : s.Keyed) :
    plan.underWay s = (.error e, s') ↔
      (s.records.deployment plan.deployment = none ∧ e = .missing plan.deployment ∨
        ∃ d, s.records.deployment plan.deployment = some d ∧
          (d.state ≠ .deploying ∧ e = .conflict (.ended plan.deployment d.state) ∨
            d.state = .deploying ∧ d.webish ≠ some plan.new ∧
              e = .conflict (.retargeted plan.deployment plan.new))) ∧ s = s' := by
  simp only [underWay, bind_error, require_ok hs, require_error hs, expect_ok, expect_error,
    Store.record_deployment, DeploymentState.isTerminal, pure_error, Bool.not_eq_false', and_assoc,
    Bool.not_eq_true', decide_eq_true_iff, decide_eq_false_iff_not, not_not, ne_eq, and_false,
    exists_false, or_false, exists_and_left, exists_eq_left', exists_const]
  constructor
  · rintro (⟨missing, rfl, rfl⟩ | ⟨d, hd, ⟨terminal, rfl, rfl⟩ | ⟨deploying, elsewhere, rfl, rfl⟩⟩)
    · exact ⟨.inl ⟨missing, rfl⟩, rfl⟩
    · exact ⟨.inr ⟨d, hd, .inl ⟨terminal, rfl⟩⟩, rfl⟩
    · exact ⟨.inr ⟨d, hd, .inr ⟨deploying, elsewhere, rfl⟩⟩, rfl⟩
  · rintro ⟨⟨missing, rfl⟩ | ⟨d, hd, ⟨terminal, rfl⟩ | ⟨deploying, elsewhere, rfl⟩⟩, rfl⟩
    · exact .inl ⟨missing, rfl, rfl⟩
    · exact .inr ⟨d, hd, .inl ⟨terminal, rfl, rfl⟩⟩
    · exact .inr ⟨d, hd, .inr ⟨deploying, elsewhere, rfl, rfl⟩⟩

theorem step_error (hs : s.Keyed) :
    plan.step expectedOld expectedNew now s = (.error e, s') ↔
      plan.RefusesStep expectedOld expectedNew s.records e ∧ s = s' := by
  simp only [step, bind_error, distinct_ok, distinct_error, expect_ok, expect_error,
    decide_eq_true_iff, decide_eq_false_iff_not, underWay_ok hs, underWay_error hs, require_ok hs,
    require_error hs, AppProcess.expectCount_ok, AppProcess.expectCount_error,
    Store.record_process, and_assoc, exists_and_left, exists_eq_left', exists_const]
  constructor
  · rintro (⟨same, rfl, rfl⟩ | ⟨distinct, ⟨none_left, rfl, rfl⟩ | ⟨some_left, h⟩⟩)
    · exact ⟨.oneProcess same, rfl⟩
    · exact ⟨.nothingToMove distinct (not_not.mp none_left), rfl⟩
    rcases h with ⟨⟨missing, rfl⟩ | ⟨d, hd, ⟨terminal, rfl⟩ | ⟨deploying, elsewhere, rfl⟩⟩, rfl⟩ |
      ⟨d, hd, deploying, webish, h⟩
    · exact ⟨.noDeployment distinct some_left missing, rfl⟩
    · exact ⟨.ended distinct some_left hd terminal, rfl⟩
    · exact ⟨.retargeted distinct some_left hd deploying elsewhere, rfl⟩
    rcases h with ⟨missing, rfl, rfl⟩ | ⟨old, hold, h⟩
    · exact ⟨.noOld distinct some_left hd deploying webish missing, rfl⟩
    have current : plan.Current s.records d old := ⟨distinct, hd, deploying, webish, hold⟩
    rcases h with ⟨missing, rfl, rfl⟩ | ⟨new, hnew, h⟩
    · exact ⟨.noNew current some_left missing, rfl⟩
    rw [hs.guid_process hold, hs.guid_process hnew] at h
    rcases h with ⟨other, rfl, rfl⟩ | ⟨count_old, ⟨other, rfl, rfl⟩ | ⟨count_new, h⟩⟩
    · exact ⟨.countOld current some_left hnew other, rfl⟩
    · exact ⟨.countNew current some_left hnew count_old other, rfl⟩
    split at h
    · simp only [bind_error, put_error, put_ok, pure_error, and_false, exists_false, or_false] at h
    · next hroom =>
        obtain ⟨rfl, rfl⟩ := throw_error.mp h
        exact ⟨.full current some_left hnew count_old count_new (Nat.le_of_not_lt hroom), rfl⟩
  · rintro ⟨h, rfl⟩
    cases h with
    | oneProcess same => exact .inl ⟨same, rfl, rfl⟩
    | nothingToMove distinct none_left =>
        exact .inr ⟨distinct, .inl ⟨not_not.mpr none_left, rfl, rfl⟩⟩
    | noDeployment distinct some_left missing =>
        exact .inr ⟨distinct, .inr ⟨some_left, .inl ⟨.inl ⟨missing, rfl⟩, rfl⟩⟩⟩
    | ended distinct some_left hd terminal =>
        exact .inr ⟨distinct, .inr ⟨some_left, .inl ⟨.inr ⟨_, hd, .inl ⟨terminal, rfl⟩⟩, rfl⟩⟩⟩
    | retargeted distinct some_left hd deploying elsewhere =>
        exact .inr ⟨distinct, .inr ⟨some_left,
          .inl ⟨.inr ⟨_, hd, .inr ⟨deploying, elsewhere, rfl⟩⟩, rfl⟩⟩⟩
    | noOld distinct some_left hd deploying webish missing =>
        exact .inr ⟨distinct, .inr ⟨some_left, .inr ⟨_, hd, deploying, webish,
          .inl ⟨missing, rfl, rfl⟩⟩⟩⟩
    | noNew current some_left missing =>
        obtain ⟨distinct, hd, deploying, webish, hold⟩ := current
        exact .inr ⟨distinct, .inr ⟨some_left, .inr ⟨_, hd, deploying, webish,
          .inr ⟨_, hold, .inl ⟨missing, rfl, rfl⟩⟩⟩⟩⟩
    | countOld current some_left hnew other =>
        obtain ⟨distinct, hd, deploying, webish, hold⟩ := current
        have hguid := hs.guid_process hold
        exact .inr ⟨distinct, .inr ⟨some_left, .inr ⟨_, hd, deploying, webish,
          .inr ⟨_, hold, .inr ⟨_, hnew, .inl ⟨other, by rw [hguid], rfl⟩⟩⟩⟩⟩⟩
    | countNew current some_left hnew count_old other =>
        obtain ⟨distinct, hd, deploying, webish, hold⟩ := current
        have hguid := hs.guid_process hnew
        exact .inr ⟨distinct, .inr ⟨some_left, .inr ⟨_, hd, deploying, webish,
          .inr ⟨_, hold, .inr ⟨_, hnew, .inr ⟨count_old, .inl ⟨other, by rw [hguid], rfl⟩⟩⟩⟩⟩⟩⟩
    | full current some_left hnew count_old count_new no_room =>
        obtain ⟨distinct, hd, deploying, webish, hold⟩ := current
        refine .inr ⟨distinct, .inr ⟨some_left, .inr ⟨_, hd, deploying, webish,
          .inr ⟨_, hold, .inr ⟨_, hnew, .inr ⟨count_old, .inr ⟨count_new, ?_⟩⟩⟩⟩⟩⟩⟩
        rw [if_neg (Nat.not_lt_of_le no_room), throw_error, hs.guid_process hnew]
        exact ⟨rfl, rfl⟩

theorem Steps.unique {d' : Deployment} {old' new' : AppProcess}
    (h : plan.Steps expectedOld expectedNew v d old new)
    (h' : plan.Steps expectedOld expectedNew v d' old' new') :
    d' = d ∧ old' = old ∧ new' = new :=
  ⟨Option.some.inj (h'.current.deployment.symm.trans h.current.deployment),
    Option.some.inj (h'.current.old.symm.trans h.current.old),
    Option.some.inj (h'.target.symm.trans h.target)⟩

end Plan

namespace Edit

variable {plan : Plan} {now : Time} {s s' : Store} {expectedOld expectedNew : UInt32}

theorem Effect.step_cases {change : Change} {v w : Records}
    (h : Effect plan now v (.step expectedOld expectedNew) change w) :
    ∃ d old new, plan.Steps expectedOld expectedNew v d old new ∧
      change = .stepped (old.instances - 1) (new.instances + 1) ∧
      w = plan.afterStep now old new v := by
  cases h with
  | step current target some_left room =>
      exact ⟨_, _, _, ⟨current, target, some_left, rfl, rfl, room⟩, rfl, rfl⟩

theorem step_succeeds_iff (hs : s.Keyed) (now : Time) :
    (∃ change s', (Edit.step expectedOld expectedNew).apply plan now s = (.ok change, s')) ↔
      ∃ d old new, plan.Steps expectedOld expectedNew s.records d old new := by
  constructor
  · rintro ⟨change, s', h⟩
    obtain ⟨d, old, new, hsteps, -⟩ := (effect_of_apply hs h).2.step_cases
    exact ⟨d, old, new, hsteps⟩
  · rintro ⟨d, old, new, current, target, some_left, rfl, rfl, room⟩
    exact apply_of_succeeds (Plan.succeeds_step hs current target some_left room)

theorem apply_of_steps (hs : s.Keyed) {d : Deployment} {old new : AppProcess}
    (hsteps : plan.Steps expectedOld expectedNew s.records d old new) : ∃ s',
      (Edit.step expectedOld expectedNew).apply plan now s =
        (.ok (.stepped (old.instances - 1) (new.instances + 1)), s') ∧
      s'.Keyed ∧ s'.records = plan.afterStep now old new s.records ∧
      s.SameOutside ((Edit.step expectedOld expectedNew).footprint plan d s.records) s' ∧
      ((old.instances - 1).toNat + 1 = old.instances.toNat ∧
        (new.instances + 1).toNat = new.instances.toNat + 1 ∧ s'.headcount = s.headcount) := by
  obtain ⟨change, s', h⟩ := (step_succeeds_iff hs now).mpr ⟨d, old, new, hsteps⟩
  obtain ⟨hkeyed, heffect⟩ := effect_of_apply hs h
  obtain ⟨d', old', new', hsteps', rfl, hrecords⟩ := heffect.step_cases
  obtain ⟨rfl, rfl, rfl⟩ := hsteps'.unique hsteps
  have hlost : s'.records.process plan.old =
      some { old with instances := old.instances - 1, updatedAt := now } := by
    simp [hrecords, Plan.afterStep, hsteps.current.distinct]
  have hwon : s'.records.process plan.new =
      some { new with instances := new.instances + 1, updatedAt := now } := by
    simp [hrecords, Plan.afterStep]
  have hold := heffect.count_old
  rw [Records.count_of_process hlost, Records.count_of_process hsteps.current.old] at hold
  have hnew := heffect.count_new
  rw [Records.count_of_process hwon, Records.count_of_process hsteps.target] at hnew
  exact ⟨s', h, hkeyed, hrecords, sameOutside_apply hs h hsteps.current.deployment, hold, hnew,
    Nat.add_right_cancel heffect.headcount⟩

/-- A step succeeds exactly if all that it checks holds. Then it moves one instance, without
wrapping a count, and writes nothing else. If not, the first check that does not hold decides the
error. -/
theorem step_exact (hs : s.Keyed) (plan : Plan) (expectedOld expectedNew : UInt32) (now : Time) :
    ((∃ change s', (Edit.step expectedOld expectedNew).apply plan now s = (.ok change, s')) ↔
        ∃ d old new, plan.Steps expectedOld expectedNew s.records d old new) ∧
      (∀ d old new, plan.Steps expectedOld expectedNew s.records d old new → ∃ s',
        (Edit.step expectedOld expectedNew).apply plan now s =
          (.ok (.stepped (old.instances - 1) (new.instances + 1)), s') ∧
        s'.Keyed ∧ s'.records = plan.afterStep now old new s.records ∧
        s.SameOutside ((Edit.step expectedOld expectedNew).footprint plan d s.records) s' ∧
        ((old.instances - 1).toNat + 1 = old.instances.toNat ∧
          (new.instances + 1).toNat = new.instances.toNat + 1 ∧ s'.headcount = s.headcount)) ∧
      ∀ e s', (Edit.step expectedOld expectedNew).apply plan now s = (.error e, s') ↔
        plan.RefusesStep expectedOld expectedNew s.records e ∧ s = s' := by
  refine ⟨step_succeeds_iff hs now, fun _ _ _ => apply_of_steps hs, ?_⟩
  intro e s'
  rw [apply, Store.commit_error, transaction]
  simp only [Plan.step_error hs, exists_and_left, exists_eq', and_true]

end Edit

/-- Of two plans with one store, the second has missed a step. -/
theorem Edit.step_exact_sample :
    let plan : Plan := ⟨"rollout", "shop-1", "shop-2"⟩
    let s := Sample.store 3 2
    s.Keyed ∧
      plan.Steps 3 2 s.records Sample.deployment (Sample.web 3) (Sample.webish 2) ∧
      (∃ s', (Edit.step 3 2).apply plan 9 s = (.ok (.stepped 2 3), s') ∧
        s'.headcount = s.headcount) ∧
      (Edit.step 3 1).apply plan 9 s = (.error (.conflict (.count "shop-2" 2 1)), s) := by
  intro plan s
  have hcurrent : plan.Current s.records Sample.deployment (Sample.web 3) := by
    rw [Sample.records_store]
    exact ⟨by decide, rfl, rfl, rfl, rfl⟩
  have htarget : s.records.process plan.new = some (Sample.webish 2) := by
    rw [Sample.records_store]
    rfl
  have hsteps : plan.Steps 3 2 s.records Sample.deployment (Sample.web 3) (Sample.webish 2) :=
    ⟨hcurrent, htarget, by decide, rfl, rfl, by decide⟩
  have hkeyed := Sample.keyed_store 3 2
  obtain ⟨s', happly, -, -, -, -, -, hcount⟩ :=
    (Edit.step_exact hkeyed plan 3 2 9).2.1 _ _ _ hsteps
  have hstale := ((Edit.step_exact hkeyed plan 3 1 9).2.2 _ _).mpr
    ⟨.countNew hcurrent (by decide) htarget rfl (by decide), rfl⟩
  exact ⟨hkeyed, hsteps, ⟨s', happly, hcount⟩, hstale⟩

end Rollout
