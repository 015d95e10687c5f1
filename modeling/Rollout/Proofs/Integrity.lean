import Rollout.Proofs.Edit

/-!
# References between records

The web process of an app, the webish process of a deployment and the process of a route are
referred to by their keys. Whatever edits are called with whatever plans, a reference that led to
a process still leads to one, although a cut-over deletes a process that others could name.
-/

namespace Rollout

/-- Web processes and the processes of routes exist; web and webish processes belong to the app. -/
structure Records.Sound (v : Records) : Prop where
  web : ∀ key app web, v.app key = some app → app.web = some web →
    ∃ p, v.process web = some p ∧ p.app = app.guid
  webish : ∀ key d webish p, v.deployment key = some d → d.webish = some webish →
    v.process webish = some p → p.app = d.app
  route : ∀ key r, v.route key = some r → ∃ p, v.process r.process = some p

structure Store.Sound (s : Store) : Prop where
  keyed : s.Keyed
  references : s.records.Sound

namespace Records.Sound

open Function (update update_self update_of_ne)

variable {v w : Records} {plan : Plan} {now : Time} {e : Edit} {change : Change}

private theorem webish_effect (h : v.Sound) (heffect : Edit.Effect plan now v e change w)
    {key webish : Guid} {d : Deployment} {p : AppProcess} (hd : w.deployment key = some d)
    (hwebish : d.webish = some webish) (hp : w.process webish = some p) : p.app = d.app := by
  obtain ⟨before, hbefore, hsame, ⟨_, hkept⟩ | ⟨_, hnone⟩⟩ := heffect.deployment_before hd
  · obtain ⟨q, hq, heq⟩ := heffect.process_before hp
    rw [← heq, ← hsame]
    exact h.webish key before webish q hbefore (hkept.trans hwebish) hq
  · rw [hnone] at hwebish
    cases hwebish

private theorem keep (h : v.Sound) (heffect : Edit.Effect plan now v e change w)
    (hcut : e ≠ .cutOver) (happ : w.app = v.app) (hroute : w.route = v.route) : w.Sound where
  web key app web ha hweb := by
    rw [happ] at ha
    obtain ⟨p, hp, howner⟩ := h.web key app web ha hweb
    obtain ⟨q, hq, heq⟩ := heffect.process_after (.inr hcut) hp
    exact ⟨q, hq, heq.trans howner⟩
  webish _ _ _ _ hd hwebish hp := h.webish_effect heffect hd hwebish hp
  route key r hr := by
    rw [hroute] at hr
    obtain ⟨p, hp⟩ := h.route key r hr
    obtain ⟨q, hq, _⟩ := heffect.process_after (.inr hcut) hp
    exact ⟨q, hq⟩

private theorem cutOver (hkeys : ∀ key app, v.app key = some app → app.guid = key) (h : v.Sound)
    (heffect : Edit.Effect plan now v .cutOver change w) : w.Sound := by
  have hprocess : ∀ {key p}, key ≠ plan.old → v.process key = some p →
      ∃ q, w.process key = some q ∧ q.app = p.app :=
    fun hkey => heffect.process_after (.inl hkey)
  have hwebish : ∀ key d webish p, w.deployment key = some d → d.webish = some webish →
      w.process webish = some p → p.app = d.app :=
    fun _ _ _ _ => h.webish_effect heffect
  cases heffect with
  | @cutOver d app old new _ _ current owner web _ target =>
  have htarget : new.app = d.app := h.webish _ d _ new current.deployment current.webish target
  have hguid : app.guid = d.app := hkeys _ _ owner
  obtain ⟨new', hnew', happ'⟩ := hprocess current.distinct.symm target
  refine ⟨?_, hwebish, ?_⟩
  · intro key a webKey ha hweb
    by_cases hkey : key = d.app
    · rw [hkey, Plan.app_afterCutOver, update_self, Option.some.injEq] at ha
      subst ha
      obtain rfl := Option.some.inj hweb
      exact ⟨new', hnew', by rw [happ', htarget, hguid]⟩
    · rw [Plan.app_afterCutOver, update_of_ne hkey] at ha
      obtain ⟨p, hp, howner⟩ := h.web key a webKey ha hweb
      have hne : webKey ≠ plan.old := by
        rintro rfl
        obtain ⟨p', hp', howner'⟩ := h.web d.app app plan.old owner web
        have hsame : p = p' := Option.some.inj (hp.symm.trans hp')
        rw [← hkeys _ _ ha, ← howner, hsame, howner', hguid] at hkey
        exact hkey rfl
      obtain ⟨q, hq, heq⟩ := hprocess hne hp
      exact ⟨q, hq, heq.trans howner⟩
  · intro key r hr
    obtain ⟨r', hr', rfl⟩ := Option.map_eq_some_iff.mp hr
    by_cases hled : r'.process = plan.old
    · rw [Plan.follow, if_pos hled]
      exact ⟨new', hnew'⟩
    · rw [Plan.follow, if_neg hled]
      obtain ⟨p, hp⟩ := h.route key r' hr'
      obtain ⟨q, hq, _⟩ := hprocess hled hp
      exact ⟨q, hq⟩

/-- One edit keeps sound records sound, whatever its plan. -/
theorem effect (hkeys : ∀ key app, v.app key = some app → app.guid = key) (h : v.Sound)
    (heffect : Edit.Effect plan now v e change w) : w.Sound := by
  by_cases hcut : e = .cutOver
  · subst hcut
    exact h.cutOver hkeys heffect
  have hkeep := h.keep heffect hcut
  cases heffect with
  | step | retire | retireAlone => exact hkeep rfl rfl
  | cutOver => exact absurd rfl hcut

end Records.Sound

/-- However many edits are called, in whatever order, with whatever plans and success: the store is
sound after them, the routes are the same but for the processes that they lead to, and if the next
call loses a process, then it is a successful cut-over of the app that had it as its web process,
and the process had no instances. -/
theorem Call.sound_after {s : Store} (hs : s.Sound) (calls : List Call) :
    (after calls s).Sound ∧
      (∀ key, ((after calls s).records.route key).map Route.label =
        (s.records.route key).map Route.label) ∧
      ∀ (call : Call) key p, (after calls s).records.process key = some p →
        (call.run (after calls s)).2.records.process key = none →
        call.edit = .cutOver ∧ call.plan.old = key ∧ p.instances = 0 ∧
          (∃ n m, (call.run (after calls s)).1 = .ok (.cutOver n m)) ∧
          ∃ d app, (after calls s).records.deployment call.plan.deployment = some d ∧
            (after calls s).records.app d.app = some app ∧ app.web = some key := by
  have hkeyed := keyed_after hs.keyed calls
  have hsound : (after calls s).records.Sound :=
    after_invariant Records.Sound hs.keyed hs.references
      (fun _ _ _ _ hk hv h => hv.effect (fun _ _ => hk.guid_app) h) calls
  refine ⟨⟨hkeyed, hsound⟩, ?_, ?_⟩
  · exact after_invariant
      (fun v => ∀ key, (v.route key).map Route.label = (s.records.route key).map Route.label)
      hs.keyed (fun _ => rfl) (fun _ _ _ _ _ hv h key => (h.label_of_route key).trans (hv key)) calls
  · intro call key p hp hlost
    rcases Edit.apply_cases hkeyed call.edit call.plan call.now with
      ⟨change, s', h, _, heffect⟩ | ⟨reason, h⟩
    · rw [run, h] at hlost ⊢
      obtain ⟨hcut, hold, hnone, ⟨n, m, rfl⟩, hd⟩ := heffect.process_lost hp hlost
      exact ⟨hcut, hold.symm, hnone, ⟨n, m, rfl⟩, hd⟩
    · rw [run, h, hp] at hlost
      cases hlost

namespace Sample

theorem sound_store (old new : UInt32) : (store old new).Sound := by
  refine ⟨keyed_store old new, ?_⟩
  rw [records_store]
  constructor
  · intro key a w ha hw
    obtain ⟨rfl, rfl⟩ : key = "shop" ∧ app = a := by
      simpa [Function.update_apply, ite_eq_iff] using ha
    obtain rfl : "shop-1" = w := Option.some.inj hw
    exact ⟨web old, by simp, rfl⟩
  · intro key d w p hd hw hp
    obtain ⟨rfl, rfl⟩ : key = "rollout" ∧ deployment = d := by
      simpa [Function.update_apply, ite_eq_iff] using hd
    obtain rfl : "shop-2" = w := Option.some.inj hw
    obtain rfl : webish new = p := by simpa using hp
    rfl
  · intro key r hr
    obtain ⟨rfl, rfl⟩ : key = "shop-route" ∧ route = r := by
      simpa [Function.update_apply, ite_eq_iff] using hr
    exact ⟨web old, by simp [route]⟩

end Sample

theorem Call.sound_after_sample :
    (Sample.store 1 1).Sound ∧
      (Call.after [⟨.retire true, ⟨"rollout", "shop-1", "shop-2"⟩, 5⟩,
        ⟨.cutOver, ⟨"rollout", "shop-1", "shop-2"⟩, 6⟩] (Sample.store 1 1)).Sound :=
  ⟨Sample.sound_store 1 1, (Call.sound_after (Sample.sound_store 1 1) _).1⟩

end Rollout
