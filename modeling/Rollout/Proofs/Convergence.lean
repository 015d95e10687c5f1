import Rollout.Proofs.Course
import Rollout.Proofs.Decision
import Rollout.Proofs.List

/-!
# Convergence of a rollout

One replica runs cycles on a store that nobody else writes. As long as the deployment is under way
every cycle takes it up once and asks for its new process there. A cycle in which the answer is that
all instances are running makes one move of the course, every other cycle makes none, and the
deployments of other apps, which are taken up in the same cycles, do not matter. After the last move
the rows of the rollout stay as they are.
-/

namespace Rollout

open Function (update update_self update_of_ne)

namespace Course

/-- No other deployment under way would start the new process again. -/
def Unstopped (c : Course) (v : Records) : Prop :=
  ∀ key d, v.deployment key = some d → key ≠ c.deployment → d.state = .deploying →
    c.new ∉ d.stopped

/-- The rows of the rollout are the same in both. -/
structure Untouched (c : Course) (v w : Records) : Prop where
  deployment : w.deployment c.deployment = v.deployment c.deployment
  app : w.app c.app = v.app c.app
  old : w.shape c.old = v.shape c.old
  new : w.process c.new = v.process c.new
  route : ∀ key r, v.route key = some r → r.process = c.old ∨ r.process = c.new →
    w.route key = some r

/-- The routes that led to the old process at the start, and where they lead now. -/
def Routed (c : Course) (routes : Guid → Option Route) (v : Records) (k : Nat) : Prop :=
  ∀ key r, routes key = some r → r.process = c.old →
    v.route key = some (if k ≤ c.size then r else { r with process := c.new })

variable {c : Course} {u v w : Records} {k : Nat} {plan : Plan} {now : Time} {e : Edit}
  {change : Change} {routes : Guid → Option Route}

theorem Untouched.refl (c : Course) (v : Records) : c.Untouched v v :=
  ⟨rfl, rfl, rfl, rfl, fun _ _ hr _ => hr⟩

theorem Untouched.trans (h : c.Untouched u v) (h' : c.Untouched v w) : c.Untouched u w where
  deployment := h'.deployment.trans h.deployment
  app := h'.app.trans h.app
  old := h'.old.trans h.old
  new := h'.new.trans h.new
  route key r hr hled := h'.route key r (h.route key r hr hled) hled

theorem At.app_of_new (h : c.At v k) {p : AppProcess} (hp : v.process c.new = some p) :
    p.app = c.app := by
  obtain ⟨new, hnew, happ⟩ : ∃ new, v.shape c.new = some new ∧ new.app = c.app := by
    cases h with
    | underWay h =>
        obtain ⟨new, hnew, happ, _⟩ := h.new
        exact ⟨new, hnew, happ⟩
    | ended h =>
        obtain ⟨new, hnew, happ, _⟩ := h.new
        exact ⟨new, hnew, happ⟩
  rw [← happ, Option.some.inj (hnew.symm.trans (Records.shape_of_process hp))]
  rfl

theorem Unstopped.effect (h : c.Unstopped v) (hat : c.At v k) (hapart : c.Apart v)
    (heffect : Edit.Effect plan now v e change w) : c.Unstopped w := by
  intro key d hd hkey hdeploying
  cases heffect with
  | step | retire => exact h key d hd hkey hdeploying
  | @retireAlone before _ siblings current _ _ mem_siblings =>
      by_cases hplan : key = plan.deployment
      · have hbefore : v.deployment key = some before := hplan ▸ current.deployment
        rw [hplan, Plan.deployment_afterLoneRetirement, update_self, Option.some.injEq] at hd
        subst hd
        intro hmem
        rcases List.mem_append.mp hmem with hmem | hmem
        · exact h key before hbefore hkey current.deploying hmem
        · -- A sibling is a process of the other deployment's app, which the new one is not.
          obtain ⟨p, hp, hguid⟩ := List.mem_map.mp hmem
          obtain ⟨hrow, hsibling⟩ := (mem_siblings p).mp hp
          rw [hguid] at hrow
          have happ : p.app = before.app := (plan.isSibling_iff.mp hsibling).1
          have hne := (hapart.deployment key before hbefore hkey current.deploying).1
          exact hne (happ.symm.trans (hat.app_of_new hrow))
      · rw [Plan.deployment_afterLoneRetirement, update_of_ne hplan] at hd
        exact h key d hd hkey hdeploying
  | cutOver =>
      by_cases hplan : key = plan.deployment
      · rw [hplan, Plan.deployment_afterCutOver, update_self, Option.some.injEq] at hd
        subst hd
        cases hdeploying
      · rw [Plan.deployment_afterCutOver, update_of_ne hplan] at hd
        exact h key d hd hkey hdeploying

/-- An edit of another deployment, away from the two processes, leaves the rows of the rollout. -/
theorem Untouched.of_effect (hkeys : ∀ key p, v.process key = some p → p.guid = key)
    (hat : c.At v k) (hapart : c.Apart v) (hunstopped : c.Unstopped v)
    (heffect : Edit.Effect plan now v e change w) (hdeployment : plan.deployment ≠ c.deployment)
    (hold : plan.old ≠ c.old) (hnew : plan.old ≠ c.new) : c.Untouched v w := by
  obtain ⟨d, old, current⟩ := heffect.current
  obtain ⟨happ, hwebishOld, hwebishNew⟩ :=
    hapart.deployment _ d current.deployment hdeployment current.deploying
  rw [current.webish, Ne, Option.some.injEq] at hwebishOld hwebishNew
  have hnewKey : c.new ≠ plan.old := hnew.symm
  have hnewWebish : c.new ≠ plan.new := Ne.symm hwebishNew
  refine ⟨heffect.deployment_of_ne hdeployment.symm,
    heffect.app_of_ne current.deployment happ.symm,
    heffect.shape_of_ne hold.symm (Ne.symm hwebishOld), ?_, ?_⟩
  · cases heffect with
    | step => simp [Plan.afterStep, hnewKey, hnewWebish]
    | retire => simp [Plan.afterRetirement, hnewKey]
    | retireAlone current' =>
        obtain rfl := Option.some.inj (current.deployment.symm.trans current'.deployment)
        simp only [Plan.afterLoneRetirement, Plan.afterRetirement, update_of_ne hnewKey]
        cases hp : v.process c.new with
        | none => rfl
        | some p =>
            have hne : p.app ≠ d.app := by
              rw [hat.app_of_new hp]
              exact happ.symm
            simp [Plan.stopSibling, Plan.isSibling, hne]
    | cutOver current' =>
        obtain rfl := Option.some.inj (current.deployment.symm.trans current'.deployment)
        simp only [Plan.afterCutOver, update_of_ne hnewKey, update_of_ne hnewWebish]
        cases hp : v.process c.new with
        | none => rfl
        | some p =>
            have hkeep : c.new ∉ d.stopped :=
              hunstopped _ d current.deployment hdeployment current.deploying
            rw [← hkeys _ p hp] at hkeep
            simp [Plan.startAgain, hkeep]
  · intro key r hr hled
    have hne : r.process ≠ plan.old := by
      rcases hled with heq | heq
      · rw [heq]
        exact hold.symm
      · rw [heq]
        exact hnewKey
    cases heffect with
    | step | retire | retireAlone => exact hr
    | cutOver => simp [hr, Plan.follow, hne]

theorem Routed.untouched (h : c.Routed routes v k) (hsame : c.Untouched v w) :
    c.Routed routes w k := by
  intro key r hr hled
  refine hsame.route key _ (h key r hr hled) ?_
  split
  · exact .inl hled
  · exact .inr rfl

theorem Routed.effect_own (h : c.Routed routes v k)
    (heffect : Edit.Effect c.plan now v e change w) (hdue : c.Due k change) :
    c.Routed routes w (k + 1) := by
  intro key r hr hled
  have hrow := h key r hr hled
  cases heffect with
  | step | retire | retireAlone =>
      have hlt : k + 1 ≤ c.size := by
        cases hdue
        omega
      have hle : k ≤ c.size := Nat.le_of_succ_le hlt
      rw [if_pos hle] at hrow
      rw [if_pos hlt]
      exact hrow
  | cutOver =>
      have hsize : k = c.size := by
        cases hdue
        assumption
      rw [if_pos (Nat.le_of_eq hsize)] at hrow
      rw [if_neg (by omega), Plan.route_afterCutOver]
      simp only [hrow, Option.map_some, Plan.follow, plan, hled, if_true]

/-- Between two turns: the moves made so far, and what keeps the others away. -/
structure Steady (c : Course) (routes : Guid → Option Route) (s : Store) (k : Nat) : Prop where
  keyed : s.Keyed
  apart : c.Apart s.records
  unstopped : c.Unstopped s.records
  moves : c.At s.records k
  routed : c.Routed routes s.records k

variable {s s' : Store} {d : Deployment} {stopOthers : Bool}

theorem Steady.turn_other (h : c.Steady routes s k) (hguid : d.guid ≠ c.deployment)
    (happ : d.app ≠ c.app) (stopOthers : Bool) (now : Time) (reporter : AppProcess → Answer) :
    c.Steady routes (Cycle.turn stopOthers now reporter d s).2 k ∧
      c.Untouched s.records (Cycle.turn stopOthers now reporter d s).2.records := by
  rcases Cycle.turn_cases h.keyed stopOthers now reporter d with
    ⟨asked, r, hturn⟩ | ⟨pair, change, s', hpair, hturn, hkeyed, heffect⟩
  · rw [hturn]
    exact ⟨h, .refl c _⟩
  · rw [hturn]
    obtain ⟨app, hrow, hweb, _⟩ := (Turn.pairOf_ok h.keyed).mp hpair
    obtain ⟨hold, hnew⟩ := h.apart.web _ app hrow happ
    rw [hweb, Ne, Option.some.injEq] at hold hnew
    have hsame : c.Untouched s.records s'.records :=
      .of_effect (fun _ _ => h.keyed.guid_process) h.moves h.apart h.unstopped heffect hguid
        hold hnew
    refine ⟨⟨hkeyed, ?_, ?_, ?_, h.routed.untouched hsame⟩, hsame⟩
    · exact h.apart.effect (fun _ => h.moves.app_of_deployment) heffect
    · exact h.unstopped.effect h.moves h.apart heffect
    · exact h.moves.effect_of_ne h.apart heffect hguid hold hnew

private theorem UnderWay.pairOf (hs : s.Keyed) (h : c.UnderWay s.records k) (happ : d.app = c.app)
    (hwebish : d.webish = some c.new) : ∃ pair, Turn.pairOf s d = .ok pair ∧
      s.records.process c.old = some pair.old ∧ s.records.process c.new = some pair.new := by
  obtain ⟨app, hrow, hweb⟩ := h.web
  obtain ⟨_, hold, _⟩ := h.old
  obtain ⟨_, hnew, _⟩ := h.new
  obtain ⟨old, hold, _⟩ := Records.shape_eq_some.mp hold
  obtain ⟨new, hnew, _⟩ := Records.shape_eq_some.mp hnew
  rw [← happ] at hrow
  have hpair := Turn.pairOf_of_records hs hrow hweb hold hwebish c.distinct.symm hnew
  exact ⟨⟨old, new⟩, hpair, hold, hnew⟩

private theorem UnderWay.apply (hs : s.Keyed) (h : c.UnderWay s.records k)
    (room : c.start + (c.size - 1) < UInt32.size) {pair : Pair}
    (hold : s.records.process c.old = some pair.old)
    (hnew : s.records.process c.new = some pair.new) (stopOthers : Bool) (now : Time) :
    ∃ change s', (pair.edit stopOthers).apply c.plan now s = (.ok change, s') := by
  obtain ⟨d, hd, hdeploying, happ, hwebish⟩ := h.deployment
  obtain ⟨app, howner, hweb⟩ := h.web
  obtain ⟨_, hcountOld⟩ := h.count_old hold
  obtain ⟨_, hcountNew⟩ := h.count_new hnew
  have hcurrent : c.plan.Current s.records d pair.old := ⟨c.distinct, hd, hdeploying, hwebish, hold⟩
  apply Edit.apply_of_succeeds
  rcases Nat.lt_or_ge 1 pair.old.instances.toNat with htwo | hle
  · have hleft : pair.old.instances ≠ 0 := by
      intro heq
      simp [heq] at htwo
    have hroom : pair.new.instances.toNat + 1 < UInt32.size := by omega
    rw [Pair.edit_of_two_le htwo]
    exact Plan.succeeds_step hs hcurrent hnew hleft hroom
  · rcases Nat.eq_or_lt_of_le hle with hone | hlt
    · have hlast : pair.old.instances = 1 := UInt32.toNat_inj.mp hone
      rw [Pair.edit_of_last hlast]
      exact Plan.succeeds_retire hs hcurrent hlast
    · have hnone : pair.old.instances = 0 := UInt32.toNat_inj.mp (Nat.lt_one_iff.mp hlt)
      rw [Pair.edit_of_none_left hnone]
      exact Plan.succeeds_cutOver hs hcurrent (happ ▸ howner) hweb hnone hnew

/-- A turn of the deployment itself makes the next move if the new process is found running, and
otherwise leaves the store as it is. -/
theorem Steady.turn_own (h : c.Steady routes s k) (hk : k ≤ c.size)
    (room : c.start + (c.size - 1) < UInt32.size) (hguid : d.guid = c.deployment)
    (happ : d.app = c.app) (hwebish : d.webish = some c.new) (stopOthers : Bool) (now : Time)
    (reporter : AppProcess → Answer) :
    ∃ new, s.records.process c.new = some new ∧
      (Cycle.turn stopOthers now reporter d s).1.asked = some new ∧
      c.Steady routes (Cycle.turn stopOthers now reporter d s).2
        (if Readiness.allRunning (reporter new) then k + 1 else k) := by
  have hunder := h.moves.underWay_of_le hk
  obtain ⟨pair, hpair, hold, hnew⟩ := hunder.pairOf h.keyed happ hwebish
  refine ⟨pair.new, hnew, ?_⟩
  have hplan : pair.plan d = c.plan := by
    rw [Pair.plan, plan, hguid, h.keyed.guid_process hold, h.keyed.guid_process hnew]
  rw [Cycle.turn, hpair]
  simp only [Turn.verdict]
  by_cases hready : Readiness.allRunning (reporter pair.new) = true
  · obtain ⟨change, s', happly⟩ := hunder.apply h.keyed room hold hnew stopOthers now
    obtain ⟨hkeyed, heffect⟩ := Edit.effect_of_apply h.keyed happly
    obtain ⟨hdue, hmoved⟩ := h.moves.effect_own heffect fun _ _ => Pair.two_le_of_edit
    have hconclude : Turn.conclude stopOthers now d pair s = (.ok (.moved change), s') := by
      rw [Turn.conclude, hplan, happly]
      rfl
    simp only [Readiness.ofAnswer_eq_ready.mpr hready, hconclude, if_pos hready, true_and]
    refine ⟨hkeyed, ?_, ?_, hmoved, h.routed.effect_own heffect hdue⟩
    · exact h.apart.effect (fun _ => h.moves.app_of_deployment) heffect
    · exact h.unstopped.effect h.moves h.apart heffect
  · rw [if_neg hready]
    cases hanswer : Readiness.ofAnswer (reporter pair.new) with
    | ready => exact absurd (Readiness.ofAnswer_eq_ready.mp hanswer) hready
    | unavailable | notRunning => exact ⟨rfl, h⟩

theorem Steady.turns_other (h : c.Steady routes s k) {ds : List Deployment}
    (hds : ∀ d ∈ ds, d.guid ≠ c.deployment ∧ d.app ≠ c.app) (stopOthers : Bool) (clock : Clock)
    (reporter : Reporter) (n : Nat) :
    let after := Cycle.turns stopOthers clock reporter n ds s
    c.Steady routes after.2 k ∧ c.Untouched s.records after.2.records := by
  induction ds generalizing n s with
  | nil => exact ⟨h, .refl c _⟩
  | cons d ds ih =>
      obtain ⟨hguid, happ⟩ := hds d List.mem_cons_self
      obtain ⟨hsteady, hsame⟩ := h.turn_other hguid happ stopOthers (clock n) (reporter n)
      obtain ⟨hsteady', hsame'⟩ :=
        ih hsteady (fun d' hd' => hds d' (List.mem_cons_of_mem d hd')) (n + 1)
      exact ⟨hsteady', hsame.trans hsame'⟩

end Course

/-- How many deployments under way have a smaller key; a cycle makes their turns before it takes
this deployment up. -/
def Store.placeOf (s : Store) (deployment : Guid) : Nat :=
  s.deployments.keys.countP fun key => key < deployment && s.records.isUnderWay key

theorem Store.placeOf_eq {s : Store} (hs : s.Keyed) {front back : List Deployment} {d : Deployment}
    (hds : Cycle.agenda s = .ok (front ++ d :: back)) : s.placeOf d.guid = front.length := by
  obtain ⟨ds, hds', hmem, hsorted⟩ := Cycle.agenda_ok hs
  obtain rfl := Except.ok.inj (hds'.symm.trans hds)
  have hkeys : s.deployments.keys.Nodup :=
    (List.pairwise_map.mpr s.deployments.ascending).nodup
  have hperm : (s.deployments.keys.filter s.records.isUnderWay).Perm
      ((front ++ d :: back).map Deployment.guid) := by
    refine (List.perm_ext_iff_of_nodup (hkeys.filter _) hsorted.nodup).mpr fun key => ?_
    rw [List.mem_filter, List.mem_map]
    constructor
    · rintro ⟨-, hunder⟩
      obtain ⟨d', hrow, hdeploying⟩ := Option.any_eq_true _ _ |>.mp hunder
      obtain rfl := hs.guid_deployment hrow
      exact ⟨d', (hmem d').mpr ⟨hrow, of_decide_eq_true hdeploying⟩, rfl⟩
    · rintro ⟨d', hd', rfl⟩
      obtain ⟨hrow, hdeploying⟩ := (hmem d').mp hd'
      obtain ⟨bytes, hfind, -⟩ := Option.bind_eq_some_iff.mp hrow
      refine ⟨List.mem_map.mpr ⟨_, Table.find?_eq_some_iff.mp hfind, rfl⟩, ?_⟩
      rw [Records.isUnderWay_of_deployment hrow, hdeploying]
      rfl
  rw [List.map_append, List.map_cons] at hperm hsorted
  rw [placeOf, ← List.countP_filter, hperm.countP_eq, List.countP_lt_of_ascending hsorted,
    List.length_map]

/-- This cycle takes the deployment up once, in the turn with this number, and asks there for this
process and for no other. -/
structure Pass.Asks (p : Pass) (s : Store) (deployment : Guid) (n : Nat) (process : AppProcess) :
    Prop where
  questions : ∃ ds d, Cycle.agenda s = .ok ds ∧ ds[n]? = some d ∧ d.guid = deployment ∧
    Turn.questions p.stopOthers (p.clock n) (p.reporter n) d 5 .readApp
      (Cycle.reached p.stopOthers p.clock p.reporter ds s n) = [process]
  report : ∃ report, (p.run s).1 = .ok report ∧ report[n]?.bind Entry.asked = some process ∧
    ∀ i entry, report[i]? = some entry → (entry.deployment = deployment ↔ i = n)

theorem Pass.asks_of_turn {p : Pass} {s : Store} (hs : s.Keyed) {ds : List Deployment}
    {d : Deployment} {n : Nat} {process : AppProcess} (hds : Cycle.agenda s = .ok ds)
    (hd : ds[n]? = some d)
    (hasked : (Cycle.turn p.stopOthers (p.clock n) (p.reporter n) d
      (Cycle.reached p.stopOthers p.clock p.reporter ds s n)).1.asked = some process) :
    p.Asks s d.guid n process where
  questions := by
    refine ⟨ds, d, hds, hd, rfl, ?_⟩
    rw [Turn.questions_eq, hasked]
    rfl
  report := by
    obtain ⟨ds', hds', -, hsorted⟩ := Cycle.agenda_ok hs
    obtain rfl := Except.ok.inj (hds'.symm.trans hds)
    have hentry := (Cycle.getElem?_turns p.stopOthers p.clock p.reporter 0 s hd).1
    have hguids := Cycle.map_deployment_turns p.stopOthers p.clock p.reporter 0 ds' s
    refine ⟨(Cycle.turns p.stopOthers p.clock p.reporter 0 ds' s).1, ?_, ?_, ?_⟩
    · rw [Pass.run, Cycle.update, hds]
    · rw [hentry, Nat.zero_add]
      exact hasked
    · intro i entry hi
      have hkey : (ds'.map Deployment.guid)[i]? = some entry.deployment := by
        rw [← hguids, List.getElem?_map, hi, Option.map_some]
      have hown : (ds'.map Deployment.guid)[n]? = some d.guid := by
        rw [List.getElem?_map, hd, Option.map_some]
      constructor
      · intro heq
        rw [heq] at hkey
        have hlt : i < (ds'.map Deployment.guid).length := (List.getElem?_eq_some_iff.mp hkey).1
        exact (List.getElem?_inj hlt hsorted.nodup).mp (hkey.trans hown.symm)
      · rintro rfl
        exact Option.some.inj (hkey.symm.trans hown)

namespace Course

/-- Whether the deployment is under way, and the reporter, asked about the new process in the turn
of the deployment, answers that all instances are running. -/
def foundRunning (c : Course) (p : Pass) (s : Store) : Bool :=
  s.records.isUnderWay c.deployment &&
    (s.records.process c.new).any fun new =>
      Readiness.allRunning (p.reporter (s.placeOf c.deployment) new)

/-- In how many of these cycles the new process was found running. -/
def countRunning (c : Course) : List Pass → Store → Nat
  | [], _ => 0
  | p :: rest, s => (c.foundRunning p s).toNat + c.countRunning rest (p.run s).2

variable {c : Course} {routes : Guid → Option Route} {s : Store} {k : Nat}

theorem countRunning_concat (passes : List Pass) (p : Pass) (s : Store) :
    c.countRunning (passes ++ [p]) s =
      c.countRunning passes s + (c.foundRunning p (Pass.after passes s)).toNat := by
  induction passes generalizing s with
  | nil => simp [countRunning, Pass.after]
  | cons first passes ih => simp [countRunning, Pass.after, ih, Nat.add_assoc]

theorem UnderWay.foundRunning (h : c.UnderWay s.records k) (p : Pass) {new : AppProcess}
    (hnew : s.records.process c.new = some new) : c.foundRunning p s =
      Readiness.allRunning (p.reporter (s.placeOf c.deployment) new) := by
  obtain ⟨d, hrow, hdeploying, _⟩ := h.deployment
  rw [Course.foundRunning, Records.isUnderWay_of_deployment hrow, hdeploying, hnew,
    Option.any_some]
  rfl

theorem Over.foundRunning (h : c.Over s.records) (p : Pass) : c.foundRunning p s = false := by
  obtain ⟨d, hrow, hdeployed, _⟩ := h.deployment
  rw [Course.foundRunning, Records.isUnderWay_of_deployment hrow, hdeployed]
  rfl

namespace Steady

/-- While the rollout is under way, a cycle takes the deployment up in its place, asks there for the
new process, and makes the next move if all its instances are running. -/
theorem asks (h : c.Steady routes s k) (hk : k ≤ c.size)
    (room : c.start + (c.size - 1) < UInt32.size) (p : Pass) :
    ∃ new, s.records.process c.new = some new ∧
      p.Asks s c.deployment (s.placeOf c.deployment) new ∧
      c.Steady routes (p.run s).2
        (if Readiness.allRunning (p.reporter (s.placeOf c.deployment) new) then k + 1 else k) := by
  obtain ⟨d, hrow, hdeploying, happ, hwebish⟩ := (h.moves.underWay_of_le hk).deployment
  have hguid := h.keyed.guid_deployment hrow
  obtain ⟨ds, hds, hmem, hsorted⟩ := Cycle.agenda_ok h.keyed
  obtain ⟨front, back, rfl⟩ := List.append_of_mem ((hmem d).mpr ⟨hguid ▸ hrow, hdeploying⟩)
  have hothers : ∀ d' ∈ front ++ back, d'.guid ≠ c.deployment ∧ d'.app ≠ c.app := by
    intro d' hd'
    have hlisted : c.Listed d' := by
      apply listed_of_mem_agenda h.keyed h.moves h.apart hds
      exact List.perm_middle.symm.subset (List.mem_cons_of_mem d hd')
    have hfresh : d.guid ∉ (front ++ back).map Deployment.guid := by
      have hnodup := (List.perm_middle.map Deployment.guid).nodup_iff.mp hsorted.nodup
      exact (List.nodup_cons.mp hnodup).1
    rcases hlisted with ⟨hguid', _⟩ | hother
    · rw [hguid, ← hguid'] at hfresh
      exact absurd (List.mem_map_of_mem hd') hfresh
    · exact hother
  have hplace : s.placeOf c.deployment = front.length := hguid ▸ Store.placeOf_eq h.keyed hds
  rw [hplace]
  have hreached : Cycle.reached p.stopOthers p.clock p.reporter (front ++ d :: back) s
      front.length = (Cycle.turns p.stopOthers p.clock p.reporter 0 front s).2 := by
    rw [Cycle.reached, List.take_left]
  obtain ⟨hsteady, hsame⟩ := h.turns_other
    (fun d' hd' => hothers d' (List.mem_append_left back hd')) p.stopOthers p.clock p.reporter 0
  obtain ⟨new, hnew, hasked, hown⟩ := hsteady.turn_own hk room hguid happ hwebish p.stopOthers
    (p.clock front.length) (p.reporter front.length)
  obtain ⟨hafter, -⟩ := hown.turns_other
    (fun d' hd' => hothers d' (List.mem_append_right front hd')) p.stopOthers p.clock p.reporter
    (front.length + 1)
  refine ⟨new, hsame.new.symm.trans hnew, ?_, ?_⟩
  · rw [← hreached] at hasked
    exact hguid ▸ Pass.asks_of_turn h.keyed hds (by simp) hasked
  · rw [Pass.run, Cycle.update, hds]
    simp only [Cycle.turns_append, Cycle.turns, Nat.zero_add]
    exact hafter

theorem run_of_lt (h : c.Steady routes s k) (hk : c.size < k) (p : Pass) :
    c.Steady routes (p.run s).2 k ∧ c.Untouched s.records (p.run s).2.records := by
  obtain ⟨ds, hds, hmem, _⟩ := Cycle.agenda_ok h.keyed
  obtain ⟨d', hrow', hdeployed, _⟩ := (h.moves.over_of_lt hk).deployment
  have hothers : ∀ d ∈ ds, d.guid ≠ c.deployment ∧ d.app ≠ c.app := by
    intro d hd
    obtain ⟨hrow, hdeploying⟩ := (hmem d).mp hd
    rcases listed_of_mem_agenda h.keyed h.moves h.apart hds d hd with ⟨hguid, _⟩ | hother
    · rw [hguid] at hrow
      rw [Option.some.inj (hrow'.symm.trans hrow), hdeploying] at hdeployed
      cases hdeployed
    · exact hother
  rw [Pass.run, Cycle.update, hds]
  exact h.turns_other hothers p.stopOthers p.clock p.reporter 0

theorem run (h : c.Steady routes s k) (room : c.start + (c.size - 1) < UInt32.size) (p : Pass) :
    c.Steady routes (p.run s).2 ((c.foundRunning p s).toNat + k) ∧
      (c.size < k → c.Untouched s.records (p.run s).2.records) := by
  rcases Nat.lt_or_ge c.size k with hlt | hle
  · obtain ⟨hsteady, hsame⟩ := h.run_of_lt hlt p
    refine ⟨?_, fun _ => hsame⟩
    rw [(h.moves.over_of_lt hlt).foundRunning p, Bool.toNat_false, Nat.zero_add]
    exact hsteady
  · obtain ⟨new, hnew, -, hsteady⟩ := h.asks hle room p
    refine ⟨?_, fun hlt => absurd hle (Nat.not_le_of_lt hlt)⟩
    rw [(h.moves.underWay_of_le hle).foundRunning p hnew]
    split at hsteady
    · next hready =>
        rw [hready, Bool.toNat_true, Nat.add_comm]
        exact hsteady
    · next hheld =>
        rw [Bool.eq_false_of_not_eq_true hheld, Bool.toNat_false, Nat.zero_add]
        exact hsteady

theorem after (h : c.Steady routes s k) (room : c.start + (c.size - 1) < UInt32.size)
    (passes : List Pass) :
    c.Steady routes (Pass.after passes s) (c.countRunning passes s + k) ∧
      (c.size < k → c.Untouched s.records (Pass.after passes s).records) := by
  induction passes generalizing s k with
  | nil =>
      refine ⟨?_, fun _ => .refl c _⟩
      rw [countRunning, Nat.zero_add]
      exact h
  | cons p passes ih =>
      obtain ⟨hrun, hsame⟩ := h.run room p
      obtain ⟨hafter, hsame'⟩ := ih hrun
      refine ⟨?_, fun hlt => (hsame hlt).trans (hsame' (by omega))⟩
      rw [countRunning, Nat.add_comm (Bool.toNat _), Nat.add_assoc]
      exact hafter

end Steady
end Course

/-- However many cycles are run and whatever the reporter answers in them, only the number of
cycles in which the new process was found running counts: it is the number of moves made. As long as
these are no more than the old instances were, the next cycle asks once for the new process, and
this answer is what counts. When there are more, the rollout is over, the routes that led to the old
process lead to the new one, and later cycles change none of the rows of the rollout. -/
theorem Pass.moves_of_passes {c : Course} {s : Store} (hs : s.Keyed) (hstart : c.At s.records 0)
    (hapart : c.Apart s.records) (hunstopped : c.Unstopped s.records)
    (room : c.start + (c.size - 1) < UInt32.size) (passes : List Pass) :
    let reached := after passes s
    let k := c.countRunning passes s
    (k ≤ c.size → c.UnderWay reached.records k ∧
      ∀ next : Pass, ∃ new, reached.records.process c.new = some new ∧
        next.Asks reached c.deployment (reached.placeOf c.deployment) new ∧
        c.countRunning (passes ++ [next]) s = k +
          (Readiness.allRunning (next.reporter (reached.placeOf c.deployment) new)).toNat) ∧
    (c.size < k →
      c.Over reached.records ∧
      (∀ key r, s.records.route key = some r → r.process = c.old →
        reached.records.route key = some { r with process := c.new }) ∧
      ∀ later, c.Untouched reached.records (after (passes ++ later) s).records) := by
  have hroutes : c.Routed s.records.route s.records 0 := by
    intro key r hr _
    rw [if_pos (Nat.zero_le _), hr]
  have hsteady : c.Steady s.records.route s 0 := ⟨hs, hapart, hunstopped, hstart, hroutes⟩
  obtain ⟨hafter, _⟩ := hsteady.after room passes
  rw [Nat.add_zero] at hafter
  intro reached k
  constructor
  · intro hle
    have hunder := hafter.moves.underWay_of_le hle
    refine ⟨hunder, fun next => ?_⟩
    obtain ⟨new, hnew, hasks, -⟩ := hafter.asks hle room next
    refine ⟨new, hnew, hasks, ?_⟩
    rw [Course.countRunning_concat, hunder.foundRunning next hnew]
  · intro hlt
    refine ⟨hafter.moves.over_of_lt hlt, ?_, ?_⟩
    · intro key r hr hled
      have hrow := hafter.routed key r hr hled
      rwa [if_neg (Nat.not_le_of_lt hlt)] at hrow
    · intro later
      rw [after_append]
      exact (hafter.after room later).2 hlt

namespace Sample

theorem unstopped_store (old new : UInt32) :
    (course old new).Unstopped (store old new).records := by
  rw [records_store]
  intro key d hd hkey
  change key ≠ "rollout" at hkey
  simp [hkey] at hd

end Sample

/-- A cycle without an answer makes no move; with the third answer that all instances are running
the rollout is over. -/
theorem Pass.moves_of_passes_sample :
    let c := Sample.course 2 1
    let s := Sample.store 2 1
    let ready : Pass := ⟨true, fun _ => 5, fun _ _ => .ok ∅⟩
    let silent : Pass := ⟨true, fun _ => 5, fun _ _ => .error (.unavailable "")⟩
    let passes := [ready, ready, silent, ready]
    (s.Keyed ∧ c.At s.records 0 ∧ c.Apart s.records ∧ c.Unstopped s.records ∧
      c.start + (c.size - 1) < UInt32.size) ∧
      ready.Asks s "rollout" 0 (Sample.webish 1) ∧ c.countRunning [ready] s = 1 ∧
      c.countRunning passes s = 3 ∧ c.Over (after passes s).records ∧
      (after passes s).records.route "shop-route" =
        some { Sample.route with process := "shop-2" } := by
  intro c s ready silent passes
  have hs := Sample.keyed_store 2 1
  have hstart := Sample.at_store 2 1
  have hapart := Sample.apart_store 2 1
  have hunstopped := Sample.unstopped_store 2 1
  have room : c.start + (c.size - 1) < UInt32.size := by decide
  obtain ⟨hbegin, -⟩ := Pass.moves_of_passes hs hstart hapart hunstopped room []
  obtain ⟨-, hnext⟩ := hbegin (Nat.zero_le _)
  obtain ⟨new, hnew, hasks, hone⟩ := hnext ready
  have hfirst : s.records.process "shop-2" = some (Sample.webish 1) := by decide +kernel
  obtain rfl : new = Sample.webish 1 := Option.some.inj (hnew.symm.trans hfirst)
  have hcount : c.countRunning passes s = 3 := by decide +kernel
  obtain ⟨-, hend⟩ := Pass.moves_of_passes hs hstart hapart hunstopped room passes
  obtain ⟨hover, hroutes, -⟩ := hend (hcount ▸ by decide)
  have hroute : s.records.route "shop-route" = some Sample.route := by decide +kernel
  exact ⟨⟨hs, hstart, hapart, hunstopped, room⟩, hasks, hone, hcount, hover,
    hroutes _ _ hroute rfl⟩

end Rollout
