import Rollout.Proofs.Edit.Refusal
import Rollout.Proofs.Readiness
import Rollout.Proofs.Report

/-!
# The decision table

What becomes of a deployment in a cycle that nobody else writes in is decided by the records at the
moment when its turn comes, and by one answer of the reporter. The turns before it may have moved
deployments of the same app, but none of them has written the row of this one, so that what it plans
is never in conflict.
-/

namespace Rollout

namespace Turn

/-- The record that a turn does not find, in the order in which it looks for them. -/
inductive Misses (v : Records) (d : Deployment) : UpdateError → Prop where
  | app (missing : v.app d.app = none) : Misses v d (.missingApp d.app)
  | web {app : App} (owner : v.app d.app = some app) (unset : app.web = none) :
      Misses v d (.missingWeb d.app)
  | old {app : App} {web : Guid} (owner : v.app d.app = some app) (set : app.web = some web)
      (missing : v.process web = none) : Misses v d (.missingProcess web)
  | webish {app : App} {old : AppProcess} (owner : v.app d.app = some app)
      (set : app.web = some old.guid) (found : v.process old.guid = some old)
      (unset : d.webish = none) : Misses v d (.missingWebish d.guid)
  | oneProcess {app : App} {old : AppProcess} (owner : v.app d.app = some app)
      (set : app.web = some old.guid) (found : v.process old.guid = some old)
      (same : d.webish = some old.guid) : Misses v d (.webishIsWeb d.guid old.guid)
  | new {app : App} {old : AppProcess} {webish : Guid} (owner : v.app d.app = some app)
      (set : app.web = some old.guid) (found : v.process old.guid = some old)
      (bound : d.webish = some webish) (distinct : webish ≠ old.guid)
      (missing : v.process webish = none) : Misses v d (.missingProcess webish)

/-- The two processes that a turn finds. -/
structure Finds (v : Records) (d : Deployment) (pair : Pair) : Prop where
  web : ∃ app, v.app d.app = some app ∧ app.web = some pair.old.guid
  old : v.process pair.old.guid = some pair.old
  bound : d.webish = some pair.new.guid
  distinct : pair.old.guid ≠ pair.new.guid
  new : v.process pair.new.guid = some pair.new

variable {s s' : Store} {d : Deployment} {e : UpdateError} {pair : Pair}

private theorem except_bind_error {ε α β : Type} {x : Except ε α} {f : α → Except ε β} {e : ε} :
    (x >>= f) = .error e ↔ x = .error e ∨ ∃ a, x = .ok a ∧ f a = .error e := by
  cases x <;> simp [bind, Except.bind]

theorem webOf_error (hs : s.Keyed) (h : webOf s d = .error e) : Misses s.records d e := by
  rw [webOf, Store.get?_eq hs, Store.record_app] at h
  cases happ : s.records.app d.app with
  | none =>
      simp only [happ, required, bind, Except.bind, Except.error.injEq] at h
      exact h ▸ .app happ
  | some app =>
      simp only [happ, required, bind, Except.bind] at h
      cases hweb : app.web with
      | none =>
          simp only [hweb, throw, throwThe, MonadExceptOf.throw, Except.error.injEq] at h
          rw [← h, hs.guid_app happ]
          exact .web happ hweb
      | some web => simp [hweb, pure, Except.pure] at h

theorem processAt_error (hs : s.Keyed) {key : Guid} (h : processAt s key = .error e) :
    s.records.process key = none ∧ e = .missingProcess key := by
  rw [processAt, Store.get?_eq hs, Store.record_process] at h
  cases hp : s.records.process key with
  | none =>
      simp only [hp, required, Except.error.injEq] at h
      exact ⟨rfl, h.symm⟩
  | some p => simp [hp, required] at h

theorem webishOf_error {old : AppProcess} (h : webishOf d old = .error e) :
    d.webish = none ∧ e = .missingWebish d.guid ∨
      d.webish = some old.guid ∧ e = .webishIsWeb d.guid old.guid := by
  rw [webishOf] at h
  split at h
  · next hnone =>
      cases h
      exact .inl ⟨hnone, rfl⟩
  · next webish hwebish =>
      split at h
      · next hsame =>
          cases h
          exact .inr ⟨hsame ▸ hwebish, by rw [hsame]⟩
      · cases h

theorem misses_of_pairOf (hs : s.Keyed) (h : pairOf s d = .error e) : Misses s.records d e := by
  simp only [pairOf, except_bind_error] at h
  rcases h with h | ⟨web, hweb, h | ⟨old, hold, h | ⟨webish, hwebish, h | ⟨new, _, h⟩⟩⟩⟩
  · exact webOf_error hs h
  · obtain ⟨app, owner, set⟩ := (webOf_ok hs).mp hweb
    obtain ⟨missing, rfl⟩ := processAt_error hs h
    exact .old owner set missing
  · obtain ⟨app, owner, set⟩ := (webOf_ok hs).mp hweb
    have found := (processAt_ok hs).mp hold
    obtain rfl := hs.guid_process found
    rcases webishOf_error h with ⟨unset, rfl⟩ | ⟨same, rfl⟩
    · exact .webish owner set found unset
    · exact .oneProcess owner set found same
  · obtain ⟨app, owner, set⟩ := (webOf_ok hs).mp hweb
    have found := (processAt_ok hs).mp hold
    obtain rfl := hs.guid_process found
    obtain ⟨bound, distinct⟩ := webishOf_ok.mp hwebish
    obtain ⟨missing, rfl⟩ := processAt_error hs h
    exact .new owner set found bound distinct missing
  · cases h

theorem finds_of_pairOf (hs : s.Keyed) (h : pairOf s d = .ok pair) : Finds s.records d pair := by
  obtain ⟨app, owner, set, old, bound, distinct, new⟩ := (pairOf_ok hs).mp h
  exact ⟨⟨app, owner, set⟩, old, bound, distinct.symm, new⟩

/-- Both processes are found, and all instances of the new one run. -/
structure Ready (v : Records) (d : Deployment) (answer : AppProcess → Answer) (pair : Pair) : Prop
    extends Finds v d pair where
  running : ∃ m, answer pair.new = .ok m ∧ m.AllRunning

/-- The decision table: the process that is asked for, the result, and the store after it. -/
inductive Decides (stopOthers : Bool) (now : Time) (answer : AppProcess → Answer) (d : Deployment)
    (s : Store) : Option AppProcess → Result → Store → Prop where
  | missing {e : UpdateError} (misses : Misses s.records d e) :
      Decides stopOthers now answer d s none (.error e) s
  | held {pair : Pair} {reason : SkipReason} (finds : Finds s.records d pair)
      (held : Held (answer pair.new) reason) :
      Decides stopOthers now answer d s (some pair.new) (.ok (.skipped reason)) s
  | full {pair : Pair} (ready : Ready s.records d answer pair)
      (left : 2 ≤ pair.old.instances.toNat)
      (no_room : pair.new.instances.toNat + 1 = UInt32.size) :
      Decides stopOthers now answer d s (some pair.new) (.error (.store (.full pair.new.guid))) s
  | step {pair : Pair} {s' : Store} (ready : Ready s.records d answer pair)
      (left : 2 ≤ pair.old.instances.toNat)
      (room : pair.new.instances.toNat + 1 < UInt32.size)
      (effect : Edit.Effect (pair.plan d) now s.records
        (.step pair.old.instances pair.new.instances)
        (.stepped (pair.old.instances - 1) (pair.new.instances + 1)) s'.records) :
      Decides stopOthers now answer d s (some pair.new)
        (.ok (.moved (.stepped (pair.old.instances - 1) (pair.new.instances + 1)))) s'
  | retire {pair : Pair} {stopped : UInt32} {s' : Store} (ready : Ready s.records d answer pair)
      (last : pair.old.instances = 1)
      (effect : Edit.Effect (pair.plan d) now s.records (.retire stopOthers) (.retired stopped)
        s'.records) :
      Decides stopOthers now answer d s (some pair.new) (.ok (.moved (.retired stopped))) s'
  | cutOver {pair : Pair} {routes restarted : UInt32} {s' : Store}
      (ready : Ready s.records d answer pair) (none_left : pair.old.instances = 0)
      (effect : Edit.Effect (pair.plan d) now s.records .cutOver (.cutOver routes restarted)
        s'.records) :
      Decides stopOthers now answer d s (some pair.new) (.ok (.moved (.cutOver routes restarted)))
        s'

section Conclude

variable {stopOthers : Bool} {now : Time} {answer : AppProcess → Answer}

theorem Finds.current (h : Finds s.records d pair) (hd : s.records.deployment d.guid = some d)
    (deploying : d.state = .deploying) : (pair.plan d).Current s.records d pair.old :=
  ⟨h.distinct, hd, deploying, h.bound, h.old⟩

theorem conclude_of_apply {change : Change}
    (h : (pair.edit stopOthers).apply (pair.plan d) now s = (.ok change, s')) :
    conclude stopOthers now d pair s = (.ok (.moved change), s') := by
  simp only [conclude, h, ofCommit]

private theorem decides_step (hs : s.Keyed) (hd : s.records.deployment d.guid = some d)
    (deploying : d.state = .deploying) (ready : Ready s.records d answer pair)
    (left : 2 ≤ pair.old.instances.toNat) :
    let after := conclude stopOthers now d pair s
    Decides stopOthers now answer d s (some pair.new) after.1 after.2 := by
  have hcurrent := ready.current hd deploying
  have hsome : pair.old.instances ≠ 0 := by
    intro hzero
    simp [hzero] at left
  have hedit : pair.edit stopOthers = .step pair.old.instances pair.new.instances :=
    Pair.edit_of_two_le left
  rcases Nat.lt_or_ge (pair.new.instances.toNat + 1) UInt32.size with room | no_room
  · have hsteps : (pair.plan d).Steps pair.old.instances pair.new.instances s.records d pair.old
        pair.new := ⟨hcurrent, ready.new, hsome, rfl, rfl, room⟩
    obtain ⟨s', happly, -⟩ : ∃ s', (Edit.step _ _).apply (pair.plan d) now s = (.ok _, s') ∧ _ :=
      Edit.apply_of_steps hs hsteps
    have heffect := (Edit.effect_of_apply hs happly).2
    rw [← hedit] at happly
    rw [conclude_of_apply happly]
    exact .step ready left room heffect
  · have hfull : (pair.edit stopOthers).apply (pair.plan d) now s =
        (.error (.full pair.new.guid), s) := by
      rw [hedit, Edit.apply, Store.commit_error, Edit.transaction]
      exact ⟨⟨s, (Plan.step_error hs).mpr
        ⟨.full hcurrent hsome ready.new rfl rfl no_room, rfl⟩⟩, rfl⟩
    have hlast : pair.new.instances.toNat + 1 = UInt32.size :=
      Nat.le_antisymm (UInt32.toNat_lt_size _) no_room
    simp only [conclude, hfull, ofCommit]
    exact .full ready left hlast

private theorem decides_retire (hs : s.Keyed) (hd : s.records.deployment d.guid = some d)
    (deploying : d.state = .deploying) (ready : Ready s.records d answer pair)
    (last : pair.old.instances = 1) :
    let after := conclude stopOthers now d pair s
    Decides stopOthers now answer d s (some pair.new) after.1 after.2 := by
  have hedit : pair.edit stopOthers = .retire stopOthers := Pair.edit_of_last last
  obtain ⟨change, s', happly⟩ : ∃ change s',
      (pair.edit stopOthers).apply (pair.plan d) now s = (.ok change, s') := by
    rw [hedit]
    exact Edit.apply_of_succeeds
      (Plan.succeeds_retire hs (ready.current hd deploying) last)
  have heffect := (Edit.effect_of_apply hs happly).2
  have hmakes := Edit.makes_of_apply happly
  rw [hedit] at heffect hmakes
  rw [conclude_of_apply happly]
  cases hmakes with
  | retire => exact .retire ready last heffect

private theorem decides_cutOver (hs : s.Keyed) (hd : s.records.deployment d.guid = some d)
    (deploying : d.state = .deploying) (ready : Ready s.records d answer pair)
    (none_left : pair.old.instances = 0) :
    let after := conclude stopOthers now d pair s
    Decides stopOthers now answer d s (some pair.new) after.1 after.2 := by
  have hedit : pair.edit stopOthers = .cutOver := Pair.edit_of_none_left none_left
  obtain ⟨app, owner, web⟩ := ready.web
  obtain ⟨change, s', happly⟩ : ∃ change s',
      (pair.edit stopOthers).apply (pair.plan d) now s = (.ok change, s') := by
    rw [hedit]
    exact Edit.apply_of_succeeds
      (Plan.succeeds_cutOver hs (ready.current hd deploying) owner web none_left ready.new)
  have heffect := (Edit.effect_of_apply hs happly).2
  have hmakes := Edit.makes_of_apply happly
  rw [hedit] at heffect hmakes
  rw [conclude_of_apply happly]
  cases hmakes with
  | cutOver => exact .cutOver ready none_left heffect

theorem decides_conclude (hs : s.Keyed) (hd : s.records.deployment d.guid = some d)
    (deploying : d.state = .deploying) (ready : Ready s.records d answer pair) :
    let after := conclude stopOthers now d pair s
    Decides stopOthers now answer d s (some pair.new) after.1 after.2 := by
  by_cases none_left : pair.old.instances = 0
  · exact decides_cutOver hs hd deploying ready none_left
  by_cases last : pair.old.instances = 1
  · exact decides_retire hs hd deploying ready last
  have left : 2 ≤ pair.old.instances.toNat := by
    have hzero : pair.old.instances.toNat ≠ 0 := fun h => none_left (UInt32.toNat_inj.mp h)
    have hone : pair.old.instances.toNat ≠ 1 := fun h => last (UInt32.toNat_inj.mp h)
    omega
  exact decides_step hs hd deploying ready left

/-- The row of a deployment under way is what the turn was given, so the table decides. -/
theorem decides_turn (hs : s.Keyed) (hd : s.records.deployment d.guid = some d)
    (deploying : d.state = .deploying) (stopOthers : Bool) (now : Time)
    (answer : AppProcess → Answer) :
    let after := Cycle.turn stopOthers now answer d s
    Decides stopOthers now answer d s after.1.asked after.1.result after.2 := by
  cases hpair : pairOf s d with
  | error e =>
      rw [Cycle.turn, hpair]
      exact .missing (misses_of_pairOf hs hpair)
  | ok pair =>
      have hfinds := finds_of_pairOf hs hpair
      by_cases hverdict : verdict pair (answer pair.new) = .commit pair
      · have hready : Ready s.records d answer pair :=
          { hfinds with running := verdict_eq_commit.mp hverdict }
        rw [Cycle.turn_of_commit hpair hverdict]
        exact decides_conclude hs hd deploying hready
      · obtain ⟨reason, hended, hheld⟩ := held_of_verdict hverdict
        rw [Cycle.turn_of_ended hpair hended]
        exact .held hfinds hheld

theorem Held.not_conflict {answer : Answer} {reason : SkipReason} (h : Held answer reason)
    (conflict : Conflict) : reason ≠ .conflict conflict := by
  cases h <;> simp

namespace Decides

variable {asked : Option AppProcess} {r : Result}

theorem not_conflict (h : Decides stopOthers now answer d s asked r s') :
    (∀ reason, r ≠ .ok (.skipped (.conflict reason)) ∧ r ≠ .error (.store (.conflict reason))) ∧
      ∀ key, r ≠ .error (.store (.missing key)) := by
  cases h with
  | missing misses => cases misses <;> simp
  | held finds held => simp [held.not_conflict]
  | full | step | retire | cutOver => simp

theorem count_le (h : Decides stopOthers now answer d s asked r s') (key : Guid) :
    s.records.count key ≤ s'.records.count key ∨
      s.records.count key = s'.records.count key + 1 ∧
        ∃ app, s.records.app d.app = some app ∧ app.web = some key := by
  have hmoved : ∀ {pair : Pair} {e : Edit} {change : Change},
      Ready s.records d answer pair →
      Edit.Effect (pair.plan d) now s.records e change s'.records →
      s.records.count key ≤ s'.records.count key ∨
        s.records.count key = s'.records.count key + 1 ∧
          ∃ app, s.records.app d.app = some app ∧ app.web = some key := by
    intro pair e change ready effect
    have hle := effect.count_le key
    by_cases hkey : key = (pair.plan d).old
    · subst hkey
      have hold := effect.count_old
      cases e with
      | step | retire => exact .inr ⟨hold.symm, ready.web⟩
      | cutOver => exact .inl hold.symm.le
    · rw [if_neg hkey] at hle
      exact .inl hle
  cases h with
  | missing | held | full => exact .inl le_rfl
  | step ready _ _ effect | retire ready _ effect | cutOver ready _ effect =>
      exact hmoved ready effect

end Decides
end Conclude

/-- The processes that so many steps of a turn ask for, on a store that nobody else writes. -/
def questions (stopOthers : Bool) (now : Time) (reporter : AppProcess → Answer) (d : Deployment) :
    Nat → Turn → Store → List AppProcess
  | 0, _, _ => []
  | n + 1, turn, s =>
    let next := step stopOthers now d (heard reporter turn) turn s
    turn.question.toList ++ questions stopOthers now reporter d n next.1 next.2

theorem questions_eq (stopOthers : Bool) (now : Time) (reporter : AppProcess → Answer)
    (d : Deployment) (s : Store) :
    questions stopOthers now reporter d 5 .readApp s =
      (Cycle.turn stopOthers now reporter d s).1.asked.toList := by
  rw [Cycle.turn, pairOf]
  cases hweb : webOf s d with
  | error e => simp [questions, step, continueWith, question, hweb, bind, Except.bind]
  | ok web =>
      cases hold : processAt s web with
      | error e => simp [questions, step, continueWith, question, hweb, hold, bind, Except.bind]
      | ok old =>
          cases hwebish : webishOf d old with
          | error e =>
              simp [questions, step, continueWith, question, hweb, hold, hwebish, bind, Except.bind]
          | ok webish =>
              cases hnew : processAt s webish with
              | error e =>
                  simp [questions, step, continueWith, question, hweb, hold, hwebish, hnew, bind,
                    Except.bind]
              | ok new =>
                  cases hready : Readiness.ofAnswer (reporter new) <;>
                    simp [questions, step, continueWith, verdict, question, heard, hweb, hold,
                      hwebish, hnew, hready, bind, Except.bind, pure, Except.pure]

end Turn

namespace Cycle

variable {stopOthers : Bool} {clock : Clock} {reporter : Reporter} {s : Store}
  {ds : List Deployment} {d : Deployment} {i : Nat}

/-- The store when the turns of the first so many of these deployments have been made. -/
def reached (stopOthers : Bool) (clock : Clock) (reporter : Reporter) (ds : List Deployment)
    (s : Store) (i : Nat) : Store :=
  (turns stopOthers clock reporter 0 (ds.take i) s).2

/-- The entry of a deployment is that of the turn made on the store that it is reached at. -/
theorem getElem?_turns (stopOthers : Bool) (clock : Clock) (reporter : Reporter) (n : Nat)
    (s : Store) (h : ds[i]? = some d) :
    let before := (turns stopOthers clock reporter n (ds.take i) s).2
    let own := turn stopOthers (clock (n + i)) (reporter (n + i)) d before
    (turns stopOthers clock reporter n ds s).1[i]? = some own.1 ∧
      (turns stopOthers clock reporter n (ds.take (i + 1)) s).2 = own.2 := by
  induction ds generalizing n s i with
  | nil => cases h
  | cons first ds ih =>
      cases i with
      | zero =>
          obtain rfl := Option.some.inj h
          exact ⟨rfl, rfl⟩
      | succ i =>
          have hplace : n + (i + 1) = n + 1 + i := by omega
          rw [hplace]
          exact ih (n + 1) (turn stopOthers (clock n) (reporter n) first s).2 h

theorem keyed_turns (hs : s.Keyed) (n : Nat) (ds : List Deployment) :
    (turns stopOthers clock reporter n ds s).2.Keyed := by
  induction ds generalizing n s with
  | nil => exact hs
  | cons d ds ih => exact ih (keyed_turn hs stopOthers (clock n) (reporter n) d) (n + 1)

theorem deployment_reached (hs : s.Keyed) (hnodup : (ds.map Deployment.guid).Nodup)
    (h : ds[i]? = some d) :
    (reached stopOthers clock reporter ds s i).records.deployment d.guid =
      s.records.deployment d.guid := by
  have hfresh : d.guid ∉ (ds.take i).map Deployment.guid := by
    have hfront := hnodup.sublist ((List.take_sublist (i + 1) ds).map Deployment.guid)
    rw [List.take_add_one, h, Option.toList_some, List.map_append, List.nodup_append] at hfront
    intro hmem
    exact hfront.2.2 _ hmem _ (List.mem_map_of_mem List.mem_cons_self) rfl
  have hrow := find?_turns hs.deployments stopOthers clock reporter 0 hfresh
  exact congrArg (Option.bind · Record.decode?) hrow

/-- One cycle that nobody else writes in follows the decision table. Each deployment under way gets
the result that the table has for the store which its turn finds, whatever the turns before have
done; no plan is ever in conflict, and a turn takes an instance only from the web process of its
app. -/
theorem update_decides (hs : s.Keyed) (stopOthers : Bool) (clock : Clock) (reporter : Reporter) :
    ∃ ds report s', agenda s = .ok ds ∧
      update stopOthers clock reporter s = (.ok report, s') ∧ report.length = ds.length ∧
      (∀ d, d ∈ ds ↔ s.records.deployment d.guid = some d ∧ d.state = .deploying) ∧
      ∀ i d, ds[i]? = some d →
        let before := reached stopOthers clock reporter ds s i
        let after := reached stopOthers clock reporter ds s (i + 1)
        ∃ entry, report[i]? = some entry ∧ entry.deployment = d.guid ∧
          before.Keyed ∧ before.records.deployment d.guid = some d ∧
          Turn.Decides stopOthers (clock i) (reporter i) d before entry.asked entry.result after ∧
          Turn.questions stopOthers (clock i) (reporter i) d 5 .readApp before =
            entry.asked.toList ∧
          ((∀ reason, entry.result ≠ .ok (.skipped (.conflict reason)) ∧
              entry.result ≠ .error (.store (.conflict reason))) ∧
            ∀ key, entry.result ≠ .error (.store (.missing key))) ∧
          ∀ key, before.records.count key ≤ after.records.count key ∨
            before.records.count key = after.records.count key + 1 ∧
              ∃ app, before.records.app d.app = some app ∧ app.web = some key := by
  obtain ⟨ds, hds, hmem, hsorted⟩ := agenda_ok hs
  refine ⟨ds, _, _, hds, by rw [update, hds], length_turns _ _ _ _ _ _, hmem, ?_⟩
  intro i d hi before after
  obtain ⟨hd, deploying⟩ := (hmem d).mp (List.mem_of_getElem? hi)
  have hkeyed : before.Keyed := keyed_turns hs 0 (ds.take i)
  have hrow : before.records.deployment d.guid = some d :=
    (deployment_reached hs hsorted.nodup hi).trans hd
  let own := turn stopOthers (clock i) (reporter i) d before
  have hturn := getElem?_turns stopOthers clock reporter 0 s hi
  rw [Nat.zero_add] at hturn
  obtain ⟨hentry, hafter⟩ : (turns stopOthers clock reporter 0 ds s).1[i]? = some own.1 ∧
    after = own.2 := hturn
  have hdecides : Turn.Decides stopOthers (clock i) (reporter i) d before own.1.asked
      own.1.result after :=
    hafter ▸ Turn.decides_turn hkeyed hrow deploying stopOthers (clock i) (reporter i)
  exact ⟨own.1, hentry, deployment_turn hkeyed _ _ _ _, hkeyed, hrow, hdecides,
    Turn.questions_eq _ _ _ _ _, hdecides.not_conflict, hdecides.count_le⟩

end Cycle

/-- The deployment whose turn comes second retires the instance that the first one has left. -/
theorem Cycle.update_decides_sample :
    let s := (Sample.store 2 1).put Sample.rival
    s.Keyed ∧ ∃ report s',
      update true (fun _ => 9) (fun _ _ => .ok ∅) s = (.ok report, s') ∧
        report.map Entry.result = [.ok (.moved (.stepped 1 2)), .ok (.moved (.retired 0))] ∧
        ∀ entry, report[1]? = some entry →
          ∀ reason, entry.result ≠ .ok (.skipped (.conflict reason)) := by
  intro s
  have hkeyed : s.Keyed := (Sample.keyed_store 2 1).put Sample.rival
  obtain ⟨ds, report, s', hds, hupdate, -, -, hturns⟩ :=
    update_decides hkeyed true (fun _ => 9) fun _ _ => .ok ∅
  have hlisted : agenda s = .ok [Sample.rival, Sample.deployment] := by decide +kernel
  obtain rfl := Except.ok.inj (hds.symm.trans hlisted)
  have hresults : (update true (fun _ => 9) (fun _ _ => .ok ∅) s).1.toOption.map
      (List.map Entry.result) =
        some [.ok (.moved (.stepped 1 2)), .ok (.moved (.retired 0))] := by
    decide +kernel
  rw [hupdate] at hresults
  obtain ⟨entry, hentry, -, -, -, -, -, ⟨hconflict, -⟩, -⟩ := hturns 1 Sample.deployment rfl
  refine ⟨hkeyed, report, s', hupdate, Option.some.inj hresults, ?_⟩
  intro entry' hentry'
  obtain rfl := Option.some.inj (hentry.symm.trans hentry')
  exact fun reason => (hconflict reason).1

end Rollout
