import Rollout.Edit
import Rollout.Proofs.Footprint
import Rollout.Proofs.Transaction

/-!
# The one deployment that an edit writes

Of the deployments an edit writes at most the one of its plan. For that only their own rows have to
be in good order; the rows of the other tables may hold anything.
-/

namespace Rollout

namespace Transaction

variable {α β : Type}

/-- Wherever the transaction ends well it has kept the invariant, and its result is one of these. -/
def Keeps (inv : Store → Prop) (q : Transaction α) (post : α → Prop) : Prop :=
  ∀ s a s', inv s → q s = (.ok a, s') → inv s' ∧ post a

namespace Keeps

variable {inv : Store → Prop} {q : Transaction α} {f : α → Transaction β} {mid : α → Prop}
  {post : β → Prop}

theorem bind (hq : Keeps inv q mid) (hf : ∀ a, mid a → Keeps inv (f a) post) :
    Keeps inv (q >>= f) post := by
  intro s b s' hs h
  obtain ⟨a, working, ha, hb⟩ := bind_ok.mp h
  obtain ⟨hworking, hmid⟩ := hq s a working hs ha
  exact hf a hmid working b s' hworking hb

theorem pure {b : β} (h : post b) : Keeps inv (Pure.pure b : Transaction β) post := by
  intro s b' s' hs hb
  obtain ⟨rfl, rfl⟩ := pure_ok.mp hb
  exact ⟨hs, h⟩

theorem throw (e : StoreError) : Keeps inv (MonadExcept.throw e : Transaction β) post :=
  fun _ _ _ _ h => absurd h throw_ok

theorem read (h : ∀ s a s', q s = (.ok a, s') → s' = s) : Keeps inv q fun _ => True := by
  intro s a s' hs hq
  rw [h s a s' hq]
  exact ⟨hs, trivial⟩

theorem expect (holds : Bool) (reason : Conflict) :
    Keeps inv (Transaction.expect holds reason) fun _ => True :=
  read fun _ _ _ h => (expect_ok.mp h).2.symm

section Rows

variable {ρ : Type} [Tabled ρ]

theorem lookup (key : Guid) : Keeps inv (Transaction.lookup ρ key) fun _ => True :=
  read fun _ _ _ h => (Prod.mk.inj h).2.symm

theorem select (keep : ρ → Bool) : Keeps inv (Transaction.select keep) fun _ => True :=
  read fun _ _ _ h => (Prod.mk.inj h).2.symm

theorem require (key : Guid) : Keeps inv (Transaction.require ρ key) fun _ => True := by
  refine bind (lookup key) ?_
  rintro (_ | r) _
  · exact throw _
  · exact pure trivial

theorem put (h : ∀ s, inv s → ∀ r : ρ, inv (s.put r)) (r : ρ) :
    Keeps inv (Transaction.put r) fun _ => True := by
  intro s _ s' hs hput
  obtain rfl := put_ok.mp hput
  exact ⟨h s hs r, trivial⟩

theorem forM_put (h : ∀ s, inv s → ∀ r : ρ, inv (s.put r)) (write : ρ → ρ) (rs : List ρ) :
    Keeps inv (rs.forM fun r => Transaction.put (write r)) fun _ => True := by
  induction rs with
  | nil => exact pure trivial
  | cons r rs ih => exact bind (put h (write r)) fun _ _ => ih

end Rows
end Keeps
end Transaction

open Transaction

theorem KeyedRows.guid_of_get? {ρ : Type} [Tabled ρ] {s : Store}
    (h : KeyedRows ρ (Tabled.rows ρ s)) {key : Guid} {r : ρ} (hr : s.get? ρ key = .ok (some r)) :
    Record.guid r = key := by
  rw [Store.get?] at hr
  cases hfind : (Tabled.rows ρ s).find? key with
  | none => simp [hfind] at hr
  | some bytes =>
      obtain ⟨r', hdecode, hguid⟩ := h key bytes hfind
      simp only [hfind, Store.decodeRow, hdecode, Except.map, Except.ok.injEq,
        Option.some.injEq] at hr
      rw [← hr, hguid]

/-- The deployments are in good order, and but for this one they are what they were. -/
structure Store.WritesDeployment (key : Guid) (before : Rows) (s : Store) : Prop where
  keyed : KeyedRows Deployment s.deployments
  others : before.SameOutside {key} s.deployments

namespace Store.WritesDeployment

variable {key : Guid} {before : Rows} {s : Store}

theorem refl (h : KeyedRows Deployment s.deployments) (key : Guid) :
    WritesDeployment key s.deployments s := ⟨h, .refl _ _⟩

theorem put_deployment (h : WritesDeployment key before s) {d : Deployment} (hd : d.guid = key) :
    WritesDeployment key before (s.put d) :=
  ⟨h.keyed.insert d, h.others.insert hd _⟩

end Store.WritesDeployment

open Store (WritesDeployment)

namespace Plan

variable {plan : Plan} {before : Rows}

-- Writing a record of another kind, or dropping a process, does not touch the deployments.
private theorem put_process (s : Store) (h : WritesDeployment plan.deployment before s)
    (p : AppProcess) : WritesDeployment plan.deployment before (s.put p) := ⟨h.keyed, h.others⟩

private theorem put_route (s : Store) (h : WritesDeployment plan.deployment before s) (r : Route) :
    WritesDeployment plan.deployment before (s.put r) := ⟨h.keyed, h.others⟩

private theorem put_app (s : Store) (h : WritesDeployment plan.deployment before s) (a : App) :
    WritesDeployment plan.deployment before (s.put a) := ⟨h.keyed, h.others⟩

private theorem keeps_drop (key : Guid) :
    Keeps (WritesDeployment plan.deployment before) (drop AppProcess key) fun _ => True := by
  intro s _ s' hs h
  obtain rfl := drop_ok.mp h
  exact ⟨⟨hs.keyed, hs.others⟩, trivial⟩

private theorem keeps_putDeployment {d : Deployment} (hd : d.guid = plan.deployment) :
    Keeps (WritesDeployment plan.deployment before) (put d) fun _ => True := by
  intro s _ s' hs h
  obtain rfl := put_ok.mp h
  exact ⟨hs.put_deployment hd, trivial⟩

private theorem keeps_underWay :
    Keeps (WritesDeployment plan.deployment before) plan.underWay
      fun d => d.guid = plan.deployment := by
  have hrequire : Keeps (WritesDeployment plan.deployment before)
      (require Deployment plan.deployment) fun d => d.guid = plan.deployment := by
    intro s d s' hs h
    obtain ⟨found, working, hlookup, h⟩ := bind_ok.mp h
    obtain ⟨hfound, rfl⟩ := Prod.mk.inj hlookup
    cases found with
    | none => exact absurd h throw_ok
    | some found =>
        obtain ⟨rfl, rfl⟩ := pure_ok.mp h
        exact ⟨hs, hs.keyed.guid_of_get? hfound⟩
  refine .bind hrequire ?_
  intro d hd
  refine .bind (.expect _ _) ?_
  intro _ _
  refine .bind (.expect _ _) ?_
  intro _ _
  exact .pure hd

theorem keeps_step (expectedOld expectedNew : UInt32) (now : Time) :
    Keeps (WritesDeployment plan.deployment before) (plan.step expectedOld expectedNew now)
      fun _ => True := by
  refine .bind (.expect _ _) fun _ _ => ?_
  refine .bind (.expect _ _) fun _ _ => ?_
  refine .bind keeps_underWay fun _ _ => ?_
  refine .bind (.require _) fun old _ => ?_
  refine .bind (.require _) fun new _ => ?_
  refine .bind (.expect _ _) fun _ _ => ?_
  refine .bind (.expect _ _) fun _ _ => ?_
  split
  · refine .bind (.put put_process _) fun _ _ => ?_
    refine .bind (.put put_process _) fun _ _ => ?_
    exact .pure trivial
  · exact .throw _

theorem keeps_retire (stopOthers : Bool) (now : Time) :
    Keeps (WritesDeployment plan.deployment before) (plan.retire stopOthers now)
      fun _ => True := by
  refine .bind (.expect _ _) fun _ _ => ?_
  refine .bind keeps_underWay fun d hd => ?_
  refine .bind (.require _) fun old _ => ?_
  refine .bind (.expect _ _) fun _ _ => ?_
  refine .bind (.put put_process _) fun _ _ => ?_
  split
  · refine .bind (.select _) fun siblings _ => ?_
    refine .bind (.forM_put put_process _ _) fun _ _ => ?_
    refine .bind (keeps_putDeployment hd) fun _ _ => ?_
    exact .pure trivial
  · exact .pure trivial

theorem keeps_restart (now : Time) (keys : List Guid) :
    Keeps (WritesDeployment plan.deployment before) (restart now keys) fun _ => True := by
  induction keys with
  | nil => exact .pure trivial
  | cons g keys ih =>
      refine .bind (.lookup _) fun found _ => ?_
      cases found with
      | none => exact ih
      | some p =>
          dsimp only
          split
          · refine .bind (.put put_process _) fun _ _ => ?_
            exact .bind ih fun _ _ => .pure trivial
          · exact ih

theorem keeps_cutOver (now : Time) :
    Keeps (WritesDeployment plan.deployment before) (plan.cutOver now) fun _ => True := by
  refine .bind (.expect _ _) fun _ _ => ?_
  refine .bind keeps_underWay fun d hd => ?_
  refine .bind (.require _) fun app _ => ?_
  refine .bind (.expect _ _) fun _ _ => ?_
  refine .bind (.require _) fun old _ => ?_
  refine .bind (.expect _ _) fun _ _ => ?_
  refine .bind (.require _) fun new _ => ?_
  refine .bind (keeps_drop _) fun _ _ => ?_
  refine .bind (.put put_process _) fun _ _ => ?_
  refine .bind (.put put_app _) fun _ _ => ?_
  refine .bind (.select _) fun routes _ => ?_
  refine .bind (.forM_put put_route _ _) fun _ _ => ?_
  refine .bind (keeps_restart now _) fun restarted _ => ?_
  refine .bind (keeps_putDeployment hd) fun _ _ => ?_
  exact .pure trivial

end Plan

/-- Whatever the other tables hold, an edit writes no deployment but the one of its plan. -/
theorem Edit.writesDeployment_apply {e : Edit} {plan : Plan} {now : Time} {s s' : Store}
    {change : Change} (hs : KeyedRows Deployment s.deployments)
    (h : e.apply plan now s = (.ok change, s')) :
    s'.WritesDeployment plan.deployment s.deployments := by
  have hrun := Store.commit_ok.mp h
  have hstart := WritesDeployment.refl hs plan.deployment
  cases e with
  | step expectedOld expectedNew => exact (Plan.keeps_step _ _ _ _ _ _ hstart hrun).1
  | retire stopOthers => exact (Plan.keeps_retire _ _ _ _ _ hstart hrun).1
  | cutOver => exact (Plan.keeps_cutOver _ _ _ _ hstart hrun).1

end Rollout
