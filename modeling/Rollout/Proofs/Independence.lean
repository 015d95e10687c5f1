import Rollout.Proofs.Ownership.Apps

/-!
# Independence

The deployments of a cycle may be taken up in any order. Each of them belongs to another app, reads
and writes the rows of this app only, and so ends as it would end alone.
-/

namespace Rollout.Cycle

open Store

section Combined

variable {o : Owners Guid} {alone : Deployment → Store} {s t u : Store} {ds es : List Deployment}
  {d : Deployment}

/-- The rows of each app are those that its own turn leaves when it is made alone, and the rows of
every app without a turn are as before. -/
structure Combined (o : Owners Guid) (alone : Deployment → Store) (s : Store)
    (ds : List Deployment) (t : Store) : Prop where
  keyed : t.Keyed
  divided : t.Divided o
  turned : ∀ d ∈ ds, Same o d.app (alone d) t
  rest : ∀ app, (∀ d ∈ ds, d.app ≠ app) → Same o app s t

theorem Combined.nil (hs : s.Keyed) (hdivided : s.Divided o) : Combined o alone s [] s where
  keyed := hs
  divided := hdivided
  turned d hd := by cases hd
  rest app _ := Same.refl o app s

theorem Combined.concat (h : Combined o alone s ds t) (hu : u.Keyed)
    (hnew : ∀ d' ∈ ds, d'.app ≠ d.app) (hwithin : Within o d.app t u)
    (hsame : Same o d.app (alone d) u) : Combined o alone s (ds ++ [d]) u where
  keyed := hu
  divided := hwithin.divided
  turned d' hd' := by
    rcases List.mem_append.mp hd' with hd' | hd'
    · exact (h.turned d' hd').trans (hwithin.rest d'.app (hnew d' hd'))
    · obtain rfl := List.mem_singleton.mp hd'
      exact hsame
  rest app happ := by
    have hfront : ∀ d' ∈ ds, d'.app ≠ app := fun d' hd' => happ d' (List.mem_append_left [d] hd')
    have hlast : d.app ≠ app := happ d (List.mem_append_right ds List.mem_cons_self)
    exact (h.rest app hfront).trans (hwithin.rest app hlast.symm)

theorem Combined.eq_of_mem_iff (h : Combined o alone s ds t) (h' : Combined o alone s es u)
    (hmem : ∀ d, d ∈ ds ↔ d ∈ es) : t = u := by
  apply eq_of_same h.divided h'.divided
  intro app
  by_cases happ : ∃ d ∈ ds, d.app = app
  · obtain ⟨d, hd, rfl⟩ := happ
    exact (h.turned d hd).symm.trans (h'.turned d ((hmem d).mp hd))
  · have hnone : ∀ d ∈ ds, d.app ≠ app := fun d hd heq => happ ⟨d, hd, heq⟩
    have hnone' : ∀ d ∈ es, d.app ≠ app := fun d hd => hnone d ((hmem d).mpr hd)
    exact (h.rest app hnone).symm.trans (h'.rest app hnone')

end Combined

section Turns

variable {s : Store} {ds : List Deployment}

/-- Turns of different apps, one after another, end as they end alone. -/
theorem turns_combined {o : Owners Guid} (hs : s.Keyed) (hdivided : s.Divided o)
    (hds : ∀ d ∈ ds, o.Deploys d.app d) (happs : (ds.map Deployment.app).Nodup)
    (stopOthers : Bool) (now : Time) (answer : Guid → Answer) :
    let alone := fun d => turn stopOthers now (fun p => answer p.guid) d s
    let run := turns stopOthers (fun _ => now) (fun _ p => answer p.guid) 0 ds s
    run.1 = ds.map (fun d => (alone d).1) ∧ Combined o (fun d => (alone d).2) s ds run.2 := by
  intro alone
  induction ds using List.reverseRecOn with
  | nil => exact ⟨rfl, .nil hs hdivided⟩
  | append_singleton ds d ih =>
      have hd := hds d (List.mem_append_right ds List.mem_cons_self)
      rw [List.map_append, List.nodup_append] at happs
      obtain ⟨hfront, _, hdisjoint⟩ := happs
      have hnew : ∀ d' ∈ ds, d'.app ≠ d.app := by
        intro d' hd'
        exact hdisjoint d'.app (List.mem_map_of_mem hd') d.app List.mem_cons_self
      obtain ⟨hreport, hcombined⟩ := ih (fun d' hd' => hds d' (List.mem_append_left [d] hd')) hfront
      obtain ⟨entry, s', u', hturn, hturn', halike⟩ := turn_alike_of_keyed hs hcombined.keyed
        hdivided hcombined.divided (hcombined.rest d.app hnew) hd stopOthers now
        fun p => answer p.guid
      have hkeyed := keyed_turn hcombined.keyed stopOthers now (fun p => answer p.guid) d
      rw [hturn'] at hkeyed
      have halone : alone d = (entry, s') := hturn
      rw [turns_concat]
      simp only [hturn', hreport]
      refine ⟨?_, hcombined.concat hkeyed hnew halike.right ?_⟩
      · rw [List.map_append, List.map_singleton, halone]
      · simp only [halone]
        exact halike.same

theorem nodup_apps_of_agenda (hs : s.Keyed) (hone : s.records.OnePerApp)
    (hds : agenda s = .ok ds) : (ds.map Deployment.app).Nodup := by
  obtain ⟨ds', hds', hmem, hsorted⟩ := agenda_ok hs
  obtain rfl := Except.ok.inj (hds.symm.trans hds')
  have hguids : (ds.map Deployment.guid).Nodup := hsorted.nodup
  refine (List.nodup_map_iff_inj_on (List.Nodup.of_map _ hguids)).mpr ?_
  intro d hd d' hd' happ
  obtain ⟨hrow, hdeploying⟩ := (hmem d).mp hd
  obtain ⟨hrow', hdeploying'⟩ := (hmem d').mp hd'
  have hkey := hone _ _ d d' hrow hrow' hdeploying hdeploying' happ
  rw [hkey, hrow'] at hrow
  exact (Option.some.inj hrow).symm

end Turns

/-- Whatever the order in which a cycle takes up its deployments, it leaves the same store, and each
deployment ends as it would end if it were the only one taken up. -/
theorem turns_perm {s : Store} (hs : s.Keyed) (hhomed : s.records.Homed)
    (hone : s.records.OnePerApp) {ds order : List Deployment} (hds : agenda s = .ok ds)
    (hperm : order.Perm ds) (stopOthers : Bool) (now : Time) (answer : Guid → Answer) :
    let run := fun list => turns stopOthers (fun _ => now) (fun _ p => answer p.guid) 0 list s
    (run order).1 = order.map (fun d => (turn stopOthers now (fun p => answer p.guid) d s).1) ∧
      (run order).2 = (run ds).2 := by
  have hdivided := hs.divided hhomed
  have hdeploys : ∀ d ∈ ds, s.records.owners.Deploys d.app d := by
    intro d hd
    obtain ⟨hdeploying, y, hy⟩ := belongs_of_mem_select hdivided hds hd
    have hown : s.records.owners.Deploys y d := hy (of_decide_eq_true hdeploying)
    have happ : d.app = y := hown.app
    rw [happ]
    exact hown
  have happs := nodup_apps_of_agenda hs hone hds
  have happs' := (hperm.map Deployment.app).nodup_iff.mpr happs
  have hdeploys' : ∀ d ∈ order, s.records.owners.Deploys d.app d :=
    fun d hd => hdeploys d (hperm.mem_iff.mp hd)
  obtain ⟨_, hcombined⟩ := turns_combined hs hdivided hdeploys happs stopOthers now answer
  obtain ⟨hreport, hcombined'⟩ :=
    turns_combined hs hdivided hdeploys' happs' stopOthers now answer
  exact ⟨hreport, hcombined'.eq_of_mem_iff hcombined fun d => hperm.mem_iff⟩

theorem turns_perm_twoApps :
    let run := fun list => turns true (fun _ => 5) (fun _ _ => .ok ∅) 0 list Sample.twoApps
    Sample.twoApps.Keyed ∧ Sample.twoApps.records.Homed ∧ Sample.twoApps.records.OnePerApp ∧
      agenda Sample.twoApps = .ok [Sample.relaunch, Sample.deployment] ∧
      (run [Sample.deployment, Sample.relaunch]).2 =
        (run [Sample.relaunch, Sample.deployment]).2 := by
  have hds : agenda Sample.twoApps = .ok [Sample.relaunch, Sample.deployment] := by decide +kernel
  exact ⟨Sample.keyed_twoApps, Sample.homed_twoApps, Sample.onePerApp_twoApps, hds,
    (turns_perm Sample.keyed_twoApps Sample.homed_twoApps Sample.onePerApp_twoApps hds
      (.swap Sample.relaunch Sample.deployment []) true 5 fun _ => .ok ∅).2⟩

end Rollout.Cycle
