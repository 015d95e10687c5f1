import Rollout.Proofs.Edit
import Mathlib.Data.List.Perm.Subperm
import Mathlib.Data.Prod.Lex

/-!
# Progress

Every edit that is committed brings its rollout nearer to the end: the deployment is under way and
the old process loses an instance, or the deployment is over. What a stale plan expects therefore
never comes back, and of all edits with one plan only so many succeed as there were old instances,
and one more.
-/

namespace Rollout

open Function (update_self update_of_ne)

namespace Records

def isUnderWay (v : Records) (deployment : Guid) : Bool :=
  (v.deployment deployment).any (·.state = .deploying)

/-- The instances of a process, none if there is no such process. -/
def count (v : Records) (process : Guid) : Nat :=
  ((v.process process).map (·.instances.toNat)).getD 0

variable {v : Records} {key : Guid}

theorem isUnderWay_of_deployment {d : Deployment} (hd : v.deployment key = some d) :
    v.isUnderWay key = decide (d.state = .deploying) := by
  rw [isUnderWay, hd, Option.any_some]

theorem count_of_shape {shape : AppProcess.Shape} (h : v.shape key = some shape) :
    v.count key = shape.instances.toNat := by
  obtain ⟨p, hp, rfl⟩ := shape_eq_some.mp h
  rw [count, hp, Option.map_some, Option.getD_some]
  rfl

end Records

/-- What is left of a rollout: whether it is under way, and then its old instances. -/
def Plan.remaining (plan : Plan) (v : Records) : Bool ×ₗ Nat :=
  toLex (v.isUnderWay plan.deployment, v.count plan.old)

namespace Edit

/-- The number of old instances at which the edit is due. -/
def dueAt : Edit → Nat
  | .step expectedOld _ => expectedOld.toNat
  | .retire _ => 1
  | .cutOver => 0

def isRetirement : Edit → Bool
  | .retire _ => true
  | _ => false

namespace Effect

variable {plan : Plan} {now : Time} {v w : Records} {e : Edit} {change : Change}

/-- An edit succeeds only while the rollout is under way, and at one number of old instances. -/
theorem remaining_before (h : Effect plan now v e change w) :
    plan.remaining v = toLex (true, e.dueAt) := by
  obtain ⟨d, old, current⟩ := h.current
  have hunder : v.isUnderWay plan.deployment = true := by
    rw [Records.isUnderWay_of_deployment current.deployment, current.deploying]
    rfl
  have hcount : v.count plan.old = old.instances.toNat :=
    Records.count_of_shape (Records.shape_of_process current.old)
  rw [Plan.remaining, hunder, hcount]
  cases h with
  | step current' => rw [← Option.some.inj (current'.old.symm.trans current.old), dueAt]
  | retire current' last | retireAlone current' last =>
      rw [← Option.some.inj (current'.old.symm.trans current.old), last, dueAt]
      rfl
  | cutOver current' _ _ none_left =>
      rw [← Option.some.inj (current'.old.symm.trans current.old), none_left, dueAt]
      rfl

theorem isUnderWay_after (h : Effect plan now v e change w) :
    w.isUnderWay plan.deployment = decide (e ≠ .cutOver) := by
  obtain ⟨d, old, current⟩ := h.current
  by_cases hcut : e = .cutOver
  · subst hcut
    obtain ⟨d', hd', hdeployed⟩ := h.deployed_of_cutOver
    rw [Records.isUnderWay_of_deployment hd', hdeployed]
    rfl
  · obtain ⟨d', hd', hstate, _⟩ := h.deployment_after (.inr hcut) current.deployment
    rw [Records.isUnderWay_of_deployment hd', hstate, current.deploying]
    simp [hcut]

theorem count_after (h : Effect plan now v e change w) (hcut : e ≠ .cutOver) :
    w.count plan.old + 1 = e.dueAt := by
  cases h with
  | @step d old new current _ left =>
      have hshape : (plan.afterStep now old new v).shape plan.old =
          some { old.shape with instances := old.instances - 1 } := by
        simp [current.distinct]
      have hpos : 1 ≤ old.instances := by
        rw [UInt32.le_iff_toNat_le, UInt32.toNat_one, Nat.one_le_iff_ne_zero]
        exact fun hzero => left (UInt32.toNat_inj.mp hzero)
      rw [Records.count_of_shape hshape, dueAt, UInt32.toNat_sub_of_le _ _ hpos,
        UInt32.toNat_one]
      rw [UInt32.le_iff_toNat_le, UInt32.toNat_one] at hpos
      exact Nat.sub_add_cancel hpos
  | @retire d old current =>
      have hshape : (plan.afterRetirement now old v).shape plan.old =
          some { old.shape with instances := 0 } := by
        simp
      rw [Records.count_of_shape hshape]
      rfl
  | @retireAlone d old siblings current =>
      have hshape : (plan.afterLoneRetirement now d old siblings v).shape plan.old =
          some { old.shape with instances := 0 } := by
        simp
      rw [Records.count_of_shape hshape]
      rfl
  | cutOver => exact absurd rfl hcut

theorem remaining_lt (h : Effect plan now v e change w) : plan.remaining w < plan.remaining v := by
  rw [h.remaining_before, Plan.remaining, h.isUnderWay_after, Prod.Lex.toLex_lt_toLex]
  by_cases hcut : e = .cutOver
  · exact .inl (by simp [hcut])
  · refine .inr ⟨by simp [hcut], ?_⟩
    rw [← h.count_after hcut]
    exact Nat.lt_succ_self _

end Effect
end Edit

namespace Call

variable {s : Store} {plan : Plan} {calls : List Call} {call : Call}

/-- The calls that succeed, in their order. -/
def committed : List Call → Store → List Call
  | [], _ => []
  | call :: rest, s =>
    match call.run s with
    | (.ok _, s') => call :: committed rest s'
    | (.error _, s') => committed rest s'

theorem run_cases (hs : s.Keyed) (hplan : call.plan = plan) :
    (∃ reason, call.run s = (.error reason, s)) ∨
    ∃ change s', call.run s = (.ok change, s') ∧ s'.Keyed ∧
      plan.remaining s.records = toLex (true, call.edit.dueAt) ∧
      plan.remaining s'.records < plan.remaining s.records ∧
      s'.records.isUnderWay plan.deployment = decide (call.edit ≠ .cutOver) := by
  subst hplan
  rcases Edit.apply_cases hs call.edit call.plan call.now with
    ⟨change, s', h, hkeyed, heffect⟩ | ⟨reason, h⟩
  · exact .inr ⟨change, s', h, hkeyed, heffect.remaining_before, heffect.remaining_lt,
      heffect.isUnderWay_after⟩
  · exact .inl ⟨reason, h⟩

/-- What is due at each of the calls that succeed falls from one to the next. -/
theorem dueAt_committed (hs : s.Keyed) (hplan : ∀ call ∈ calls, call.plan = plan) :
    ((committed calls s).map (·.edit.dueAt)).Pairwise (· > ·) ∧
      ∀ call ∈ committed calls s,
        toLex (true, call.edit.dueAt) ≤ plan.remaining s.records := by
  induction calls generalizing s with
  | nil => simp [committed]
  | cons call calls ih =>
      have hrest := fun (s' : Store) (hs' : s'.Keyed) =>
        ih hs' fun later hlater => hplan later (List.mem_cons_of_mem call hlater)
      rcases run_cases hs (hplan call List.mem_cons_self) with
        ⟨reason, h⟩ | ⟨change, s', h, hkeyed, hdue, hless, _⟩
      · rw [committed, h]
        exact hrest s hs
      · obtain ⟨hfalls, hbelow⟩ := hrest s' hkeyed
        rw [committed, h]
        constructor
        · rw [List.map_cons, List.pairwise_cons]
          refine ⟨?_, hfalls⟩
          intro n hn
          obtain ⟨later, hlater, rfl⟩ := List.mem_map.mp hn
          have hlt := (hbelow later hlater).trans_lt hless
          rw [hdue, Prod.Lex.toLex_lt_toLex] at hlt
          simpa using hlt
        · intro later hlater
          rcases List.mem_cons.mp hlater with rfl | hlater
          · exact hdue.ge
          · exact (hbelow later hlater).trans hless.le

theorem countP_committed_le_one (hs : s.Keyed) (hplan : ∀ call ∈ calls, call.plan = plan)
    {n : Nat} {kind : Call → Bool} (hkind : ∀ call, kind call = true → call.edit.dueAt = n) :
    (committed calls s).countP kind ≤ 1 := by
  have hnodup := (dueAt_committed hs hplan).1.imp fun h => Nat.ne_of_gt h
  calc (committed calls s).countP kind
    _ ≤ (committed calls s).countP (·.edit.dueAt == n) :=
        List.countP_mono_left fun call _ h => beq_iff_eq.mpr (hkind call h)
    _ = ((committed calls s).map (·.edit.dueAt)).count n := by
        rw [List.count, List.countP_map]
        rfl
    _ ≤ 1 := List.nodup_iff_count_le_one.mp hnodup n

theorem length_committed_le (hs : s.Keyed) (hplan : ∀ call ∈ calls, call.plan = plan) :
    (committed calls s).length ≤ s.records.count plan.old + 1 := by
  obtain ⟨hfalls, hbelow⟩ := dueAt_committed hs hplan
  have hnodup := hfalls.imp fun h => Nat.ne_of_gt h
  have hrange : (committed calls s).map (·.edit.dueAt) ⊆
      List.range (s.records.count plan.old + 1) := by
    intro n hn
    obtain ⟨call, hcall, rfl⟩ := List.mem_map.mp hn
    have hle := hbelow call hcall
    rw [Plan.remaining, Prod.Lex.toLex_le_toLex] at hle
    have hcount : call.edit.dueAt ≤ s.records.count plan.old := by
      rcases hle with hlt | ⟨_, hle⟩
      · exact absurd hlt (Bool.le_true _).not_gt
      · exact hle
    exact List.mem_range.mpr (Nat.lt_succ_of_le hcount)
  have hlength := (List.subperm_of_subset hnodup hrange).length_le
  rwa [List.length_map, List.length_range] at hlength

theorem committed_of_not_underWay (hs : s.Keyed) (hplan : ∀ call ∈ calls, call.plan = plan)
    (hover : s.records.isUnderWay plan.deployment = false) :
    committed calls s = [] ∧ after calls s = s := by
  induction calls with
  | nil => exact ⟨rfl, rfl⟩
  | cons call calls ih =>
      rcases run_cases hs (hplan call List.mem_cons_self) with
        ⟨reason, h⟩ | ⟨_, _, _, _, hdue, _, _⟩
      · have hrest := ih fun later hlater => hplan later (List.mem_cons_of_mem call hlater)
        rw [committed, h, after, List.foldl_cons, h]
        exact hrest
      · rw [Plan.remaining, hover] at hdue
        cases hdue

/-- No plan is committed twice. In any sequence of calls about one deployment and two processes,
each success leaves less of the rollout than before, and only a cut-over ends it. So every step
plan, the retirement and the cut-over succeed at most once, there are no more successes than there
were old instances and one, and once the deployment is not under way no call succeeds or writes. -/
theorem committed_once (hs : s.Keyed) (hplan : ∀ call ∈ calls, call.plan = plan) :
    (∀ before call rest change, calls = before ++ call :: rest →
      (call.run (after before s)).1 = .ok change →
      plan.remaining (after (before ++ [call]) s).records <
          plan.remaining (after before s).records ∧
        ((after (before ++ [call]) s).records.isUnderWay plan.deployment = false ↔
          call.edit = .cutOver)) ∧
    (∀ expectedOld expectedNew,
      (committed calls s).countP (·.edit = .step expectedOld expectedNew) ≤ 1) ∧
    (committed calls s).countP (·.edit.isRetirement) ≤ 1 ∧
    (committed calls s).countP (·.edit = .cutOver) ≤ 1 ∧
    (committed calls s).length ≤ s.records.count plan.old + 1 ∧
    ∀ before rest, calls = before ++ rest →
      (after before s).records.isUnderWay plan.deployment = false →
      committed rest (after before s) = [] ∧ after calls s = after before s := by
  refine ⟨?_, ?_, ?_, ?_, length_committed_le hs hplan, ?_⟩
  · intro before call rest change hcalls hok
    have hmem : call ∈ calls := hcalls ▸ List.mem_append_right before List.mem_cons_self
    rw [after_concat]
    rcases run_cases (keyed_after hs before) (hplan call hmem) with
      ⟨reason, h⟩ | ⟨_, s', h, _, _, hless, hunder⟩
    · rw [h] at hok
      cases hok
    · rw [h]
      refine ⟨hless, ?_⟩
      rw [hunder, decide_eq_false_iff_not, not_not]
  · intro expectedOld expectedNew
    refine countP_committed_le_one hs hplan (n := expectedOld.toNat) fun call hcall => ?_
    rw [of_decide_eq_true hcall, Edit.dueAt]
  · refine countP_committed_le_one hs hplan (n := 1) fun call hcall => ?_
    cases hedit : call.edit with
    | retire => rfl
    | step | cutOver => simp [hedit, Edit.isRetirement] at hcall
  · refine countP_committed_le_one hs hplan (n := 0) fun call hcall => ?_
    rw [of_decide_eq_true hcall, Edit.dueAt]
  · intro before rest hcalls hover
    have hrest : ∀ call ∈ rest, call.plan = plan :=
      fun call hcall => hplan call (hcalls ▸ List.mem_append_right before hcall)
    obtain ⟨hnone, hsame⟩ := committed_of_not_underWay (keyed_after hs before) hrest hover
    refine ⟨hnone, ?_⟩
    rw [hcalls, after, List.foldl_append]
    exact hsame

/-- Of these calls three succeed, one of each kind, and the last one fails for good. -/
theorem committed_once_sample :
    let plan : Plan := ⟨"rollout", "shop-1", "shop-2"⟩
    let s := Sample.store 2 1
    let calls : List Call := [⟨.step 2 1, plan, 5⟩, ⟨.step 2 1, plan, 6⟩, ⟨.retire true, plan, 7⟩,
      ⟨.retire false, plan, 8⟩, ⟨.cutOver, plan, 9⟩, ⟨.cutOver, plan, 10⟩]
    (s.Keyed ∧ ∀ call ∈ calls, call.plan = plan) ∧
      (committed calls s).map Call.edit = [.step 2 1, .retire true, .cutOver] ∧
      (committed calls s).length = s.records.count "shop-1" + 1 ∧
      plan.remaining (after (calls.take 1) s).records < plan.remaining s.records ∧
      (after (calls.take 5) s).records.isUnderWay "rollout" = false ∧
      committed (calls.drop 5) (after (calls.take 5) s) = [] ∧
      after calls s = after (calls.take 5) s := by
  intro plan s calls
  have hs := Sample.keyed_store 2 1
  have hplan : ∀ call ∈ calls, call.plan = plan := by simp [calls]
  obtain ⟨hfalls, -, -, -, -, hover⟩ := committed_once hs hplan
  have hedits : (committed calls s).map Call.edit = [.step 2 1, .retire true, .cutOver] := by
    decide +kernel
  have hlength : (committed calls s).length = 3 := by
    rw [← List.length_map Call.edit, hedits]
    rfl
  have hcount : s.records.count "shop-1" = 2 := by decide +kernel
  have hfirst : ((⟨.step 2 1, plan, 5⟩ : Call).run s).1 = .ok (.stepped 1 2) := by decide +kernel
  obtain ⟨hless, -⟩ := hfalls [] _ _ _ rfl hfirst
  have hended : (after (calls.take 5) s).records.isUnderWay "rollout" = false := by decide +kernel
  obtain ⟨hnone, hsame⟩ := hover (calls.take 5) (calls.drop 5) rfl hended
  exact ⟨⟨hs, hplan⟩, hedits, by rw [hlength, hcount], hless, hended, hnone, hsame⟩

end Call
end Rollout
