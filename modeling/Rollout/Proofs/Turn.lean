import Rollout.Cycle.Basic
import Rollout.Proofs.Edit

/-!
# Turns on a store in good order

What the reads of a turn find, what its commit does, and that its steps, taken one after another on
a store that nobody else writes, are the turn as a whole.
-/

namespace Rollout

namespace Pair

variable {pair : Pair} {stopOthers : Bool}

/-- A step is planned only from two instances on. -/
theorem two_le_of_edit {expectedOld expectedNew : UInt32}
    (h : pair.edit stopOthers = .step expectedOld expectedNew) : 2 ≤ expectedOld.toNat := by
  rw [edit, phase, Phase.ofOldInstances] at h
  split at h
  · next hphase =>
      cases h
      split_ifs at hphase with hzero hone
      have hzero' : pair.old.instances.toNat ≠ 0 := fun h => hzero (UInt32.toNat_inj.mp h)
      have hone' : pair.old.instances.toNat ≠ 1 := fun h => hone (UInt32.toNat_inj.mp h)
      omega
  · cases h
  · cases h

theorem edit_of_none_left (h : pair.old.instances = 0) : pair.edit stopOthers = .cutOver := by
  simp [edit, phase, Phase.ofOldInstances, h]

theorem edit_of_last (h : pair.old.instances = 1) : pair.edit stopOthers = .retire stopOthers := by
  simp [edit, phase, Phase.ofOldInstances, h]

theorem edit_of_two_le (h : 2 ≤ pair.old.instances.toNat) :
    pair.edit stopOthers = .step pair.old.instances pair.new.instances := by
  have hzero : pair.old.instances ≠ 0 := by
    intro heq
    simp [heq] at h
  have hone : pair.old.instances ≠ 1 := by
    intro heq
    simp [heq] at h
  simp [edit, phase, Phase.ofOldInstances, hzero, hone]

end Pair

namespace Turn

variable {s : Store} {d : Deployment} {stopOthers : Bool} {now : Time}

theorem webOf_eq_ok {web : Guid} :
    webOf s d = .ok web ↔ ∃ app, s.get? App d.app = .ok (some app) ∧ app.web = some web := by
  rw [webOf]
  rcases s.get? App d.app with e | (_ | app)
  · simp [required, bind, Except.bind]
  · simp [required, bind, Except.bind]
  · simp only [required, bind, Except.bind, Except.ok.injEq, Option.some.injEq, exists_eq_left']
    cases app.web <;> simp [pure, Except.pure]

theorem webOf_ok (hs : s.Keyed) {web : Guid} :
    webOf s d = .ok web ↔ ∃ app, s.records.app d.app = some app ∧ app.web = some web := by
  rw [webOf_eq_ok, Store.get?_eq hs, Store.record_app]
  simp only [Except.ok.injEq]

theorem processAt_eq_ok {key : Guid} {p : AppProcess} :
    processAt s key = .ok p ↔ s.get? AppProcess key = .ok (some p) := by
  rw [processAt]
  rcases s.get? AppProcess key with e | (_ | p') <;> simp [required]

theorem processAt_ok (hs : s.Keyed) {key : Guid} {p : AppProcess} :
    processAt s key = .ok p ↔ s.records.process key = some p := by
  rw [processAt_eq_ok, Store.get?_eq hs, Store.record_process, Except.ok.injEq]

theorem webishOf_ok {old : AppProcess} {webish : Guid} :
    webishOf d old = .ok webish ↔ d.webish = some webish ∧ webish ≠ old.guid := by
  rw [webishOf]
  cases d.webish with
  | none => simp
  | some key =>
      by_cases hkey : key = old.guid
      · simp only [hkey, if_true, Option.some.injEq]
        constructor
        · intro h
          cases h
        · rintro ⟨rfl, hne⟩
          exact absurd rfl hne
      · simp only [hkey, if_false, Except.ok.injEq, Option.some.injEq]
        constructor
        · rintro rfl
          exact ⟨rfl, hkey⟩
        · exact And.left

private theorem except_bind_ok {ε α β : Type} {x : Except ε α} {f : α → Except ε β} {b : β} :
    (x >>= f) = .ok b ↔ ∃ a, x = .ok a ∧ f a = .ok b := by
  cases x <;> simp [bind, Except.bind]

theorem pairOf_eq_ok {pair : Pair} : pairOf s d = .ok pair ↔ ∃ web webish,
    webOf s d = .ok web ∧ processAt s web = .ok pair.old ∧
      webishOf d pair.old = .ok webish ∧ processAt s webish = .ok pair.new := by
  simp only [pairOf, except_bind_ok]
  constructor
  · rintro ⟨web, hweb, old, hold, webish, hwebish, new, hnew, h⟩
    cases h
    exact ⟨web, webish, hweb, hold, hwebish, hnew⟩
  · rintro ⟨web, webish, hweb, hold, hwebish, hnew⟩
    exact ⟨web, hweb, pair.old, hold, webish, hwebish, pair.new, hnew, rfl⟩

theorem pairOf_ok (hs : s.Keyed) {pair : Pair} :
    pairOf s d = .ok pair ↔ ∃ app, s.records.app d.app = some app ∧
      app.web = some pair.old.guid ∧ s.records.process pair.old.guid = some pair.old ∧
      d.webish = some pair.new.guid ∧ pair.new.guid ≠ pair.old.guid ∧
      s.records.process pair.new.guid = some pair.new := by
  simp only [pairOf_eq_ok, webOf_ok hs, processAt_ok hs, webishOf_ok]
  constructor
  · rintro ⟨web, webish, ⟨app, happ, hweb⟩, hold, ⟨hwebish, hne⟩, hnew⟩
    obtain rfl := hs.guid_process hold
    obtain rfl := hs.guid_process hnew
    exact ⟨app, happ, hweb, hold, hwebish, hne, hnew⟩
  · rintro ⟨app, happ, hweb, hold, hwebish, hne, hnew⟩
    exact ⟨_, _, ⟨app, happ, hweb⟩, hold, ⟨hwebish, hne⟩, hnew⟩

theorem pairOf_of_records (hs : s.Keyed) {app : App} {old new : AppProcess} {web webish : Guid}
    (howner : s.records.app d.app = some app) (hweb : app.web = some web)
    (hold : s.records.process web = some old) (hbound : d.webish = some webish)
    (hne : webish ≠ web) (hnew : s.records.process webish = some new) :
    pairOf s d = .ok ⟨old, new⟩ := by
  obtain rfl := hs.guid_process hold
  obtain rfl := hs.guid_process hnew
  exact (pairOf_ok hs).mpr ⟨app, howner, hweb, hold, hbound, hne, hnew⟩

/-- How a turn goes on from one step to the next, with what the step has read. -/
inductive Next (s : Store) (d : Deployment) : Turn → Turn → Prop where
  | ended {turn : Turn} (r : Result) : Next s d turn (.ended r)
  | web {web : Guid} (hweb : webOf s d = .ok web) : Next s d .readApp (.readOld web)
  | old {web webish : Guid} {old : AppProcess} (hold : processAt s web = .ok old)
      (hwebish : webishOf d old = .ok webish) : Next s d (.readOld web) (.readNew old webish)
  | new {webish : Guid} {old new : AppProcess} (hnew : processAt s webish = .ok new) :
      Next s d (.readNew old webish) (.ask ⟨old, new⟩)
  | ready {pair : Pair} : Next s d (.ask pair) (.commit pair)

theorem next_step (stopOthers : Bool) (now : Time) (d : Deployment) (answer : Answer) (turn : Turn)
    (s : Store) : Next s d turn (turn.step stopOthers now d answer s).1 := by
  cases turn with
  | readApp =>
      rw [step]
      cases hweb : webOf s d with
      | error e => exact .ended _
      | ok web => exact .web hweb
  | readOld web =>
      rw [step]
      cases hold : processAt s web with
      | error e => exact .ended _
      | ok old =>
          simp only [continueWith]
          cases hwebish : webishOf d old with
          | error e => exact .ended _
          | ok webish => exact .old hold hwebish
  | readNew old webish =>
      rw [step]
      cases hnew : processAt s webish with
      | error e => exact .ended _
      | ok new => exact .new hnew
  | ask pair =>
      rw [step, verdict]
      cases Readiness.ofAnswer answer with
      | ready => exact .ready
      | unavailable | notRunning => exact .ended _
  | commit pair => exact .ended _
  | ended r => exact .ended r

/-- The commit of a turn either makes the planned edit or leaves the store as it is, whatever the
store holds. -/
theorem conclude_commit (stopOthers : Bool) (now : Time) (d : Deployment) (pair : Pair)
    (s : Store) :
    (∃ change s', conclude stopOthers now d pair s = (.ok (.moved change), s') ∧
      (pair.edit stopOthers).apply (pair.plan d) now s = (.ok change, s')) ∨
    ∃ r, conclude stopOthers now d pair s = (r, s) ∧ ∀ change, r ≠ .ok (.moved change) := by
  rw [conclude]
  rcases h : (pair.edit stopOthers).apply (pair.plan d) now s with ⟨reason | change, s'⟩
  · obtain rfl := Edit.store_of_apply_error h
    refine .inr ⟨ofCommit (.error reason), rfl, ?_⟩
    intro change
    cases reason <;> simp [ofCommit]
  · exact .inl ⟨change, s', rfl, rfl⟩

/-- The steps of a turn on a store that nobody else writes; the answers may depend on where the
turn stands. -/
def alone (stopOthers : Bool) (now : Time) (answer : Turn → Answer) (d : Deployment) :
    Nat → Turn → Store → Turn × Store
  | 0, turn, s => (turn, s)
  | n + 1, turn, s =>
    let (turn, s) := step stopOthers now d (answer turn) turn s
    alone stopOthers now answer d n turn s

/-- Step by step, a turn ends as the turn of a cycle does: after three reads, the question and the
commit. -/
theorem alone_eq_turn (stopOthers : Bool) (now : Time) {answer : Turn → Answer}
    {reporter : AppProcess → Answer} (hanswer : ∀ pair, answer (.ask pair) = reporter pair.new)
    (d : Deployment) (s : Store) :
    alone stopOthers now answer d 5 .readApp s =
      (.ended (Cycle.turn stopOthers now reporter d s).1.result,
        (Cycle.turn stopOthers now reporter d s).2) := by
  rw [Cycle.turn, pairOf]
  cases hweb : webOf s d with
  | error e => simp [alone, step, continueWith, hweb, bind, Except.bind]
  | ok web =>
      cases hold : processAt s web with
      | error e => simp [alone, step, continueWith, hweb, hold, bind, Except.bind]
      | ok old =>
          cases hwebish : webishOf d old with
          | error e => simp [alone, step, continueWith, hweb, hold, hwebish, bind, Except.bind]
          | ok webish =>
              cases hnew : processAt s webish with
              | error e =>
                  simp [alone, step, continueWith, hweb, hold, hwebish, hnew, bind, Except.bind]
              | ok new =>
                  cases hready : Readiness.ofAnswer (reporter new) <;>
                    simp [alone, step, continueWith, verdict, hanswer, hweb, hold, hwebish, hnew,
                      hready, bind, Except.bind, pure, Except.pure]

end Turn

/-- A turn moves its deployment by the edit that it planned from its reads, or it leaves the store
as it is, whatever the store holds. -/
theorem Cycle.turn_commit (stopOthers : Bool) (now : Time) (reporter : AppProcess → Answer)
    (d : Deployment) (s : Store) :
    (∃ asked r, turn stopOthers now reporter d s = (⟨d.guid, asked, r⟩, s) ∧
      ∀ change, r ≠ .ok (.moved change)) ∨
    ∃ pair change s', Turn.pairOf s d = .ok pair ∧
      turn stopOthers now reporter d s = (⟨d.guid, some pair.new, .ok (.moved change)⟩, s') ∧
      (pair.edit stopOthers).apply (pair.plan d) now s = (.ok change, s') := by
  rw [turn]
  cases hpair : Turn.pairOf s d with
  | error e => exact .inl ⟨none, .error e, rfl, by simp⟩
  | ok pair =>
      simp only [Turn.verdict]
      cases Readiness.ofAnswer (reporter pair.new) with
      | unavailable | notRunning => exact .inl ⟨_, _, rfl, by simp⟩
      | ready =>
          rcases Turn.conclude_commit stopOthers now d pair s with
            ⟨change, s', h, happly⟩ | ⟨r, h, hr⟩
          · exact .inr ⟨pair, change, s', rfl, by simp only [h], happly⟩
          · exact .inl ⟨some pair.new, r, by simp only [h], hr⟩

theorem Cycle.store_of_turn {s : Store} {stopOthers : Bool} {now : Time}
    {reporter : AppProcess → Answer} {d : Deployment}
    (h : ∀ change, (turn stopOthers now reporter d s).1.result ≠ .ok (.moved change)) :
    (turn stopOthers now reporter d s).2 = s := by
  rcases turn_commit stopOthers now reporter d s with
    ⟨_, _, hkept, _⟩ | ⟨_, change, _, _, hmoved, _⟩
  · rw [hkept]
  · rw [hmoved] at h
    exact absurd rfl (h change)

/-- A turn that is not stopped on its way commits the edit that it planned from its reads, if the
edit succeeds; every other turn leaves the store as it is. -/
theorem Cycle.turn_cases {s : Store} (hs : s.Keyed) (stopOthers : Bool) (now : Time)
    (reporter : AppProcess → Answer) (d : Deployment) :
    (∃ asked r, turn stopOthers now reporter d s = (⟨d.guid, asked, r⟩, s)) ∨
    ∃ pair change s', Turn.pairOf s d = .ok pair ∧
      turn stopOthers now reporter d s = (⟨d.guid, some pair.new, .ok (.moved change)⟩, s') ∧
      s'.Keyed ∧
      Edit.Effect (pair.plan d) now s.records (pair.edit stopOthers) change s'.records := by
  rcases turn_commit stopOthers now reporter d s with
    ⟨asked, r, h, _⟩ | ⟨pair, change, s', hpair, h, happly⟩
  · exact .inl ⟨asked, r, h⟩
  · obtain ⟨hkeyed, heffect⟩ := Edit.effect_of_apply hs happly
    exact .inr ⟨pair, change, s', hpair, h, hkeyed, heffect⟩

theorem Cycle.deployment_turn {s : Store} (hs : s.Keyed) (stopOthers : Bool) (now : Time)
    (reporter : AppProcess → Answer) (d : Deployment) :
    (turn stopOthers now reporter d s).1.deployment = d.guid := by
  rcases turn_cases hs stopOthers now reporter d with
    ⟨_, _, h⟩ | ⟨_, _, _, _, h, _⟩
  · rw [h]
  · rw [h]

theorem Cycle.keyed_turn {s : Store} (hs : s.Keyed) (stopOthers : Bool) (now : Time)
    (reporter : AppProcess → Answer) (d : Deployment) :
    (turn stopOthers now reporter d s).2.Keyed := by
  rcases turn_cases hs stopOthers now reporter d with
    ⟨_, _, h⟩ | ⟨_, _, _, _, h, hkeyed, _⟩
  · rw [h]
    exact hs
  · rw [h]
    exact hkeyed

theorem Cycle.turns_append (stopOthers : Bool) (clock : Clock) (reporter : Reporter) (n : Nat)
    (ds later : List Deployment) (s : Store) :
    turns stopOthers clock reporter n (ds ++ later) s =
      let before := turns stopOthers clock reporter n ds s
      let rest := turns stopOthers clock reporter (n + ds.length) later before.2
      (before.1 ++ rest.1, rest.2) := by
  induction ds generalizing n s with
  | nil => rfl
  | cons first ds ih =>
      have hplace : n + 1 + ds.length = n + (first :: ds).length := by
        rw [List.length_cons]
        omega
      have hrest := ih (n + 1) (turn stopOthers (clock n) (reporter n) first s).2
      rw [hplace] at hrest
      rw [List.cons_append, turns]
      simp only [hrest]
      rfl

theorem Cycle.turns_concat (stopOthers : Bool) (clock : Clock) (reporter : Reporter) (n : Nat)
    (ds : List Deployment) (d : Deployment) (s : Store) :
    turns stopOthers clock reporter n (ds ++ [d]) s =
      let before := turns stopOthers clock reporter n ds s
      let last := turn stopOthers (clock (n + ds.length)) (reporter (n + ds.length)) d before.2
      (before.1 ++ [last.1], last.2) := by
  rw [turns_append]
  rfl

theorem Cycle.length_turns (stopOthers : Bool) (clock : Clock) (reporter : Reporter) (n : Nat)
    (ds : List Deployment) (s : Store) :
    (turns stopOthers clock reporter n ds s).1.length = ds.length := by
  induction ds generalizing n s with
  | nil => rfl
  | cons d ds ih => exact congrArg (· + 1) (ih (n + 1) _)

/-- A cycle takes up the deployments under way, each once and in the order of their keys. -/
theorem Cycle.agenda_ok {s : Store} (hs : s.Keyed) : ∃ ds, agenda s = .ok ds ∧
    (∀ d, d ∈ ds ↔ s.records.deployment d.guid = some d ∧ d.state = .deploying) ∧
    (ds.map Deployment.guid).Pairwise (· < ·) := by
  refine ⟨_, Store.select_eq hs _, ?_, Rows.ascending_filter_records hs.deployments _⟩
  intro d
  rw [List.mem_filter, decide_eq_true_iff]
  exact and_congr_left fun _ => Rows.mem_records hs.deployments

theorem Pass.after_append (first later : List Pass) (s : Store) :
    after (first ++ later) s = after later (after first s) := by
  induction first generalizing s with
  | nil => rfl
  | cons p first ih => exact ih (p.run s).2

end Rollout
