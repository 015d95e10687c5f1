import Rollout.Proofs.Edit.Effect
import Rollout.Proofs.Ownership.Transaction

/-!
# Edits of one owner

The three edits of a deployment read and write rows of the deployment's owner only, among them the
siblings that a retirement finds by their app and the routes that a cut-over finds by their process.
A step looks up its rows one by one, so that nobody else's rows matter to it. A retirement that
stops the other processes walks over all processes, and a cut-over over all routes: one row there
that holds no record fails them, whosever it is.
-/

namespace Rollout

open Store Transaction

variable {σ : Type} {o : Owners σ} {x : σ} {u v s t : Store} {left right : Prop} {plan : Plan}
  {now : Time}

/-- The deployment and both processes of a plan are this owner's. -/
structure Owners.Plans (o : Owners σ) (x : σ) (plan : Plan) : Prop where
  deployment : o.deployment plan.deployment = x
  old : o.process plan.old = some x
  new : o.process plan.new = some x

namespace Plan

private theorem local_put_process {p q : AppProcess} (hp : Ownable.Belongs o x p)
    (hguid : q.guid = p.guid) (happ : q.app = p.app) :
    Local o x u v left right (Transaction.put q) fun _ => True := by
  obtain ⟨howner, hbelongs⟩ := hp
  rw [← hguid] at howner
  rw [← happ] at hbelongs
  exact Local.put howner ⟨howner, hbelongs⟩

theorem local_underWay (h : o.Plans x plan) :
    Local o x u v left right plan.underWay (o.Deploys x) := by
  apply Local.bind (Local.require (.inl (congrArg some h.deployment)))
  intro d hd
  apply Local.bind (Local.expect _ _)
  intro _ hlive
  apply Local.bind (Local.expect _ _)
  intro _ _
  have hdeploying : d.state = .deploying := by
    simpa [DeploymentState.isTerminal] using hlive
  exact .pure (hd hdeploying)

theorem local_step (h : o.Plans x plan) (expectedOld expectedNew : UInt32) :
    Local o x u v left right (plan.step expectedOld expectedNew now) fun _ => True := by
  apply Local.bind (Local.expect _ _)
  intro _ _
  apply Local.bind (Local.expect _ _)
  intro _ _
  apply Local.bind (local_underWay h)
  intro _ _
  apply Local.bind (Local.require (.inl h.old))
  intro old hold
  apply Local.bind (Local.require (.inl h.new))
  intro new hnew
  apply Local.bind (Local.expect _ _)
  intro _ _
  apply Local.bind (Local.expect _ _)
  intro _ _
  split
  · refine Local.bind (local_put_process hold rfl rfl) ?_
    intro _ _
    refine Local.bind (local_put_process hnew rfl rfl) ?_
    intro _ _
    exact .pure trivial
  · exact .throw _ _

private theorem owner_of_isSibling {d : Deployment} (hd : o.Deploys x d) (y : σ) (p : AppProcess)
    (hp : Ownable.Belongs o y p) (hsibling : plan.isSibling d.app p = true) : y = x := by
  have happ : p.app = d.app := (plan.isSibling_iff.mp hsibling).1
  rw [← hp.2, happ, hd.app]

theorem local_retire (h : o.Plans x plan) (stopOthers : Bool)
    (hleft : stopOthers = true → ¬ ReadableBeyond AppProcess o x u →
      ReadableBeyond AppProcess o x v → left)
    (hright : stopOthers = true → ReadableBeyond AppProcess o x u →
      ¬ ReadableBeyond AppProcess o x v → right) :
    Local o x u v left right (plan.retire stopOthers now) fun _ => True := by
  apply Local.bind (Local.expect _ _)
  intro _ _
  apply Local.bind (local_underWay h)
  intro d hd
  apply Local.bind (Local.require (.inl h.old))
  intro old hold
  apply Local.bind (Local.expect _ _)
  intro _ _
  refine Local.bind (local_put_process hold rfl rfl) ?_
  intro _ _
  split
  · next hstop =>
      apply Local.bind (Local.select (owner_of_isSibling hd) (hleft hstop) (hright hstop))
      intro siblings hsiblings
      refine Local.bind (Local.forM_put fun p hp => ⟨(hsiblings p hp).1, hsiblings p hp⟩) ?_
      intro _ _
      have hstopped : ∀ key ∈ d.stopped ++ siblings.map AppProcess.guid, o.MayName x key := by
        intro key hkey
        rcases List.mem_append.mp hkey with hkey | hkey
        · exact hd.stopped key hkey
        · obtain ⟨p, hp, rfl⟩ := List.mem_map.mp hkey
          exact .inl (hsiblings p hp).1
      refine Local.bind (Local.put (congrArg some hd.guid)
        fun _ => ⟨hd.guid, hd.app, hd.webish, hstopped⟩) ?_
      intro _ _
      exact .pure trivial
  · exact .pure trivial

theorem local_restart {keys : List Guid} (h : ∀ key ∈ keys, o.MayName x key) :
    Local o x u v left right (restart now keys) fun _ => True := by
  induction keys with
  | nil => exact .pure trivial
  | cons g keys ih =>
      have hrest := ih fun key hkey => h key (List.mem_cons_of_mem g hkey)
      apply Local.bind (Local.lookup (h g List.mem_cons_self).owner)
      intro found hfound
      cases found with
      | none => exact hrest
      | some p =>
          have hp := hfound p rfl
          dsimp only
          split
          · refine Local.bind (local_put_process hp rfl rfl) ?_
            intro _ _
            apply Local.bind hrest
            intro _ _
            exact .pure trivial
          · exact hrest

private theorem owner_of_led (h : o.Plans x plan) (y : σ) (r : Route)
    (hr : Ownable.Belongs o y r) (hled : decide (r.process = plan.old) = true) : y = x := by
  have hold := h.old
  rw [← of_decide_eq_true hled] at hold
  rcases hr.2 with hmine | hnobody
  · rw [hmine, Option.some.injEq] at hold
    exact hold
  · rw [hnobody] at hold
    cases hold

theorem local_cutOver (h : o.Plans x plan)
    (hleft : ¬ ReadableBeyond Route o x u → ReadableBeyond Route o x v → left)
    (hright : ReadableBeyond Route o x u → ¬ ReadableBeyond Route o x v → right) :
    Local o x u v left right (plan.cutOver now) fun _ => True := by
  apply Local.bind (Local.expect _ _)
  intro _ _
  apply Local.bind (local_underWay h)
  intro d hd
  apply Local.bind (Local.require (.inl (congrArg some hd.app)))
  intro app happ
  apply Local.bind (Local.expect _ _)
  intro _ _
  apply Local.bind (Local.require (.inl h.old))
  intro old _
  apply Local.bind (Local.expect _ _)
  intro _ _
  apply Local.bind (Local.require (.inl h.new))
  intro new hnew
  apply Local.bind (Local.drop h.old)
  intro _ _
  refine Local.bind (local_put_process hnew rfl rfl) ?_
  intro _ _
  have hweb : ∀ web, some new.guid = some web → o.MayName x web := by
    intro web hweb
    obtain rfl := Option.some.inj hweb
    exact .inl hnew.1
  refine Local.bind (Local.put (congrArg some happ.1) ⟨happ.1, hweb⟩) ?_
  intro _ _
  apply Local.bind (Local.select (owner_of_led h) hleft hright)
  intro routes hroutes
  have hmoved : ∀ r ∈ routes, Ownable.owner Route o r.guid = some x ∧
      Ownable.Belongs o x { r with process := new.guid } := by
    intro r hr
    exact ⟨congrArg some (hroutes r hr).1, (hroutes r hr).1, .inl hnew.1⟩
  refine Local.bind (Local.forM_put hmoved) ?_
  intro _ _
  apply Local.bind (local_restart hd.stopped)
  intro _ _
  refine Local.bind (Local.put (congrArg some hd.guid) fun hdeploying => nomatch hdeploying) ?_
  intro _ _
  exact .pure trivial

end Plan

namespace Edit

/-- The edit walks over a table in which a row of somebody else is no record, whereas all such rows
of the other store are. -/
def Hindered (o : Owners σ) (x : σ) (s other : Store) : Edit → Prop
  | .step _ _ => False
  | .retire stopOthers => stopOthers = true ∧
      ¬ ReadableBeyond AppProcess o x s ∧ ReadableBeyond AppProcess o x other
  | .cutOver => ¬ ReadableBeyond Route o x s ∧ ReadableBeyond Route o x other

theorem not_hindered_self (e : Edit) : ¬ e.Hindered o x s s := by
  cases e with
  | step => exact id
  | retire => exact fun h => h.2.1 h.2.2
  | cutOver => exact fun h => h.1 h.2

theorem local_transaction (h : o.Plans x plan) (e : Edit) (now : Time) :
    Local o x u v (e.Hindered o x u v) (e.Hindered o x v u) (e.transaction plan now)
      fun _ => True := by
  cases e with
  | step expectedOld expectedNew => exact Plan.local_step h expectedOld expectedNew
  | retire stopOthers =>
      exact Plan.local_retire h stopOthers (fun hstop hu hv => ⟨hstop, hu, hv⟩)
        fun hstop hu hv => ⟨hstop, hv, hu⟩
  | cutOver => exact Plan.local_cutOver h (fun hu hv => ⟨hu, hv⟩) fun hu hv => ⟨hv, hu⟩

/-- On stores with the same rows of its owner an edit does the same, unless it is hindered in one of
them: then it fails there and has no effect. -/
theorem apply_alike (hs : s.Divided o) (ht : t.Divided o) (hsame : Same o x s t)
    (h : o.Plans x plan) (e : Edit) (now : Time) :
    (∃ r s' t', e.apply plan now s = (r, s') ∧ e.apply plan now t = (r, t') ∧
      Alike o x s t s' t') ∨
    (e.Hindered o x s t ∧ e.apply plan now s = (.error .notARecord, s)) ∨
    (e.Hindered o x t s ∧ e.apply plan now t = (.error .notARecord, t)) := by
  have hstart := Alike.refl hs ht hsame
  rcases local_transaction h e now s t hstart with
    ⟨r, s', t', hrun, hrun', halike, _⟩ | ⟨hhindered, s', hrun⟩ | ⟨hhindered, t', hrun⟩
  · cases r with
    | ok change =>
        exact .inl ⟨.ok change, s', t', commit_ok.mpr hrun, commit_ok.mpr hrun', halike⟩
    | error e =>
        exact .inl ⟨.error e, s, t, commit_error.mpr ⟨⟨s', hrun⟩, rfl⟩,
          commit_error.mpr ⟨⟨t', hrun'⟩, rfl⟩, hstart⟩
  · exact .inr (.inl ⟨hhindered, commit_error.mpr ⟨⟨s', hrun⟩, rfl⟩⟩)
  · exact .inr (.inr ⟨hhindered, commit_error.mpr ⟨⟨t', hrun⟩, rfl⟩⟩)

/-- An edit leaves the rows of everybody else as they are. -/
theorem within_apply (hs : s.Divided o) (h : o.Plans x plan) (e : Edit) (now : Time) :
    Within o x s (e.apply plan now s).2 := by
  rcases apply_alike hs hs (Same.refl o x s) h e now with
    ⟨r, s', t', hrun, _, halike⟩ | ⟨hhindered, _⟩ | ⟨hhindered, _⟩
  · rw [hrun]
    exact halike.left
  · exact absurd hhindered e.not_hindered_self
  · exact absurd hhindered e.not_hindered_self

end Edit
end Rollout
