import Rollout.Cycle.Scheduler
import Rollout.Proofs.Turn

/-!
# A scheduler, step by step

Whatever comes between its steps, a cycle that has begun runs to its end, and what it leaves is what
the cycle leaves that is made in one go.
-/

namespace Rollout
namespace Scheduler

/-- The processes that the cycles with these results have asked the reporter about. -/
def asked (results : List (Option Report)) : List AppProcess :=
  results.flatMap fun r => (r.getD []).filterMap Entry.asked

/-- The call has come to what the cycle makes of the store in one go. -/
def passed (σ : Scheduler) (p : Pass) : Scheduler :=
  let after := p.run σ.store
  { σ with
    task := .waiting
    store := after.2
    questions := σ.questions ++ asked [after.1.toOption]
    results := σ.results ++ [after.1.toOption] }

@[simp] theorem run_nil (σ : Scheduler) : σ.run [] = some σ := rfl

theorem run_cons (σ : Scheduler) (m : Moment) (ms : List Moment) :
    σ.run (m :: ms) = (σ.step m).bind (·.run ms) := rfl

theorem run_append (σ : Scheduler) (ms later : List Moment) :
    σ.run (ms ++ later) = (σ.run ms).bind (·.run later) :=
  List.foldlM_append

theorem advance_withLock (σ : Scheduler) (lock : Option LockClient) :
    { σ with lock }.advance = σ.advance.map ({ · with lock }) := by
  obtain ⟨_, task, s, _, _⟩ := σ
  cases task with
  | listing p =>
      simp only [advance]
      rcases Cycle.agenda s with _ | (_ | ⟨d, ds⟩) <;> rfl
  | turning p before d turn asked rest =>
      cases turn with
      | ended r => cases rest <;> rfl
      | _ => rfl
  | _ => rfl

/-- Steps of the cycle alone lead from one to the other. -/
def Drains (σ τ : Scheduler) : Prop := ∃ k, σ.run (List.replicate k .advanced) = some τ

namespace Drains

variable {σ τ υ : Scheduler}

theorem refl (σ : Scheduler) : Drains σ σ := ⟨0, rfl⟩

private theorem run_succ (σ : Scheduler) (k : Nat) : σ.run (List.replicate (k + 1) .advanced) =
    σ.advance.bind (·.run (List.replicate k .advanced)) := rfl

theorem head (h : σ.advance = some τ) (h' : Drains τ υ) : Drains σ υ := by
  obtain ⟨k, hk⟩ := h'
  exact ⟨k + 1, by rw [run_succ, h, Option.bind_some, hk]⟩

theorem trans (h : Drains σ τ) (h' : Drains τ υ) : Drains σ υ := by
  obtain ⟨k, hk⟩ := h
  obtain ⟨l, hl⟩ := h'
  exact ⟨k + l, by rw [List.replicate_add, run_append, hk, Option.bind_some, hl]⟩

theorem tail (h : Drains σ υ) (hυ : υ.advance = none) (hσ : σ.advance = some τ) :
    Drains τ υ := by
  obtain ⟨k, hk⟩ := h
  cases k with
  | zero =>
      obtain rfl : σ = υ := Option.some.inj hk
      rw [hυ] at hσ
      cases hσ
  | succ k =>
      rw [run_succ, hσ, Option.bind_some] at hk
      exact ⟨k, hk⟩

theorem eq_of_idle (h : Drains σ τ) (hσ : σ.advance = none) : σ = τ := by
  obtain ⟨k, hk⟩ := h
  cases k with
  | zero => exact Option.some.inj hk
  | succ k =>
      rw [run_succ, hσ] at hk
      cases hk

theorem withLock (h : Drains σ τ) (lock : Option LockClient) :
    Drains { σ with lock } { τ with lock } := by
  obtain ⟨k, hk⟩ := h
  refine ⟨k, ?_⟩
  induction k generalizing σ with
  | zero =>
      obtain rfl : σ = τ := Option.some.inj hk
      rfl
  | succ k ih =>
      rw [run_succ] at hk
      obtain ⟨ρ, hρ, hk⟩ := Option.bind_eq_some_iff.mp hk
      rw [run_succ, advance_withLock, hρ]
      exact ih hk

end Drains

section Cycle

variable (σ : Scheduler) (p : Pass) (before : Report) (d : Deployment) (rest : List Deployment)

/-- The scheduler in this place of a turn. -/
def inTurn (turn : Turn) (asked : Option AppProcess) : Scheduler :=
  { σ with task := .turning p before d turn asked rest }

private theorem drains_step {turn : Turn} (hturn : ∀ r, turn ≠ .ended r)
    {asked : Option AppProcess} {υ : Scheduler}
    (h : Drains (σ.stepTurn p before d turn asked rest) υ) :
    Drains (σ.inTurn p before d rest turn asked) υ := by
  refine .head ?_ h
  cases turn with
  | ended r => exact absurd rfl (hturn r)
  | _ => rfl

private theorem drains_ended (r : Result) (asked : Option AppProcess) :
    Drains (σ.inTurn p before d rest (.ended r) asked)
      (σ.takeUp p (before ++ [⟨d.guid, asked, r⟩]) rest) := by
  refine .head ?_ (.refl _)
  cases rest <;> rfl

private theorem stepTurn_of_read {turn next : Turn} (hquestion : turn.question = none)
    (hstep : turn.step p.stopOthers (p.clock before.length) d
      (turn.heard (p.reporter before.length)) σ.store = (next, σ.store)) :
    σ.stepTurn p before d turn none rest = σ.inTurn p before d rest next none := by
  rw [stepTurn, hstep, hquestion, Option.toList_none, List.append_nil]
  rfl

private theorem drains_reads :
    Drains (σ.inTurn p before d rest .readApp none)
      (σ.inTurn p before d rest (Turn.continueWith .ask (Turn.pairOf σ.store d)) none) := by
  rw [Turn.pairOf]
  apply drains_step _ _ _ _ _ (by simp)
  rw [stepTurn_of_read _ _ _ _ _ rfl rfl]
  cases Turn.webOf σ.store d with
  | error e => exact .refl _
  | ok web =>
      simp only [Turn.continueWith, bind, Except.bind]
      apply drains_step _ _ _ _ _ (by simp)
      rw [stepTurn_of_read _ _ _ _ _ rfl rfl]
      cases Turn.processAt σ.store web with
      | error e => exact .refl _
      | ok old =>
          simp only [Turn.continueWith]
          cases Turn.webishOf d old with
          | error e => exact .refl _
          | ok webish =>
              dsimp only
              apply drains_step _ _ _ _ _ (by simp)
              rw [stepTurn_of_read _ _ _ _ _ rfl rfl]
              cases Turn.processAt σ.store webish with
              | error e => exact .refl _
              | ok new => exact .refl _

private theorem drains_commit (pair : Pair) (asked : Option AppProcess) :
    let after := Turn.conclude p.stopOthers (p.clock before.length) d pair σ.store
    Drains (σ.inTurn p before d rest (.commit pair) asked)
      ({ σ with store := after.2 }.takeUp p (before ++ [Entry.mk d.guid asked after.1]) rest) := by
  intro after
  apply drains_step _ _ _ _ _ (by simp)
  have hstep : σ.stepTurn p before d (.commit pair) asked rest =
      { σ with store := after.2 }.inTurn p before d rest (.ended after.1) asked := by
    simp only [stepTurn, Turn.question, Option.toList_none, List.append_nil]
    rfl
  rw [hstep]
  exact drains_ended _ p before d rest after.1 asked

private theorem drains_ask {pair : Pair} (hpair : Turn.pairOf σ.store d = .ok pair) :
    let n := before.length
    let after := Cycle.turn p.stopOthers (p.clock n) (p.reporter n) d σ.store
    Drains (σ.inTurn p before d rest (.ask pair) none)
      ({ σ with store := after.2, questions := σ.questions ++ after.1.asked.toList }.takeUp p
        (before ++ [after.1]) rest) := by
  intro n
  apply drains_step _ _ _ _ _ (by simp)
  have hstep : σ.stepTurn p before d (.ask pair) none rest =
      { σ with questions := σ.questions ++ [pair.new] }.inTurn p before d rest
        (Turn.verdict pair (p.reporter n pair.new)) (some pair.new) := rfl
  rw [hstep]
  simp only [Cycle.turn, hpair, Turn.verdict]
  cases Readiness.ofAnswer (p.reporter n pair.new) with
  | ready => exact drains_commit _ p before d rest pair (some pair.new)
  | unavailable | notRunning => exact drains_ended _ p before d rest _ (some pair.new)

theorem drains_turn :
    let n := before.length
    let after := Cycle.turn p.stopOthers (p.clock n) (p.reporter n) d σ.store
    Drains (σ.inTurn p before d rest .readApp none)
      ({ σ with store := after.2, questions := σ.questions ++ after.1.asked.toList }.takeUp p
        (before ++ [after.1]) rest) := by
  intro n
  refine (drains_reads σ p before d rest).trans ?_
  cases hpair : Turn.pairOf σ.store d with
  | error e =>
      simp only [Cycle.turn, hpair, Option.toList_none, List.append_nil]
      exact drains_ended _ p before d rest _ none
  | ok pair => exact drains_ask σ p before d rest hpair

end Cycle

private theorem filterMap_asked (entry : Entry) (report : Report) :
    (entry :: report).filterMap Entry.asked =
      entry.asked.toList ++ report.filterMap Entry.asked := by
  cases h : entry.asked <;> simp [h]

theorem drains_takeUp (σ : Scheduler) (p : Pass) (before : Report) (ds : List Deployment) :
    let after := Cycle.turns p.stopOthers p.clock p.reporter before.length ds σ.store
    Drains (σ.takeUp p before ds)
      { σ with
        task := .waiting
        store := after.2
        questions := σ.questions ++ after.1.filterMap Entry.asked
        results := σ.results ++ [some (before ++ after.1)] } := by
  induction ds generalizing σ before with
  | nil =>
      simp only [Cycle.turns, List.filterMap_nil, List.append_nil]
      exact .refl _
  | cons d ds ih =>
      let n := before.length
      let first := Cycle.turn p.stopOthers (p.clock n) (p.reporter n) d σ.store
      let σ' : Scheduler :=
        { σ with store := first.2, questions := σ.questions ++ first.1.asked.toList }
      have hrest := ih σ' (before ++ [first.1])
      simp only [List.length_append, List.length_singleton, List.append_assoc, σ',
        ← filterMap_asked, List.singleton_append] at hrest
      exact (drains_turn σ p before d ds).trans hrest

/-- Left to itself, a cycle comes to what the pass comes to in one go. -/
theorem drains_pass (σ : Scheduler) (p : Pass) :
    Drains { σ with task := .listing p } (σ.passed p) := by
  rw [passed, Pass.run, Cycle.update]
  cases hds : Cycle.agenda σ.store with
  | error e =>
      have hadvance : { σ with task := .listing p }.advance = some (σ.finish none) := by
        simp only [advance, hds]
        rfl
      simp only [asked, Except.toOption, List.flatMap_singleton, Option.getD_none,
        List.filterMap_nil, List.append_nil]
      exact .head hadvance (.refl _)
  | ok ds =>
      have hadvance : { σ with task := .listing p }.advance = some (σ.takeUp p [] ds) := by
        simp only [advance, hds]
        cases ds <;> rfl
      simp only [asked, Except.toOption, List.flatMap_singleton, Option.getD_some]
      exact .head hadvance (drains_takeUp σ p [] ds)

theorem run_call (σ : Scheduler) (hdue : σ.task = .due) (p : Pass) :
    ∃ k, σ.run (.called p :: List.replicate k .advanced) =
      some (if σ.admits then σ.passed p else σ.finish none) := by
  have hcalled : σ.step (.called p) =
      some (if σ.admits then { σ with task := .listing p } else σ.finish none) := by
    rw [step, hdue]
  cases hadmits : σ.admits with
  | true =>
      obtain ⟨k, hk⟩ := drains_pass σ p
      rw [hadmits, if_pos rfl] at hcalled
      exact ⟨k, by rw [run_cons, hcalled, Option.bind_some, if_pos rfl, hk]⟩
  | false =>
      rw [hadmits] at hcalled
      exact ⟨0, by rw [run_cons, hcalled, Option.bind_some, List.replicate_zero, run_nil]; rfl⟩

end Scheduler
end Rollout
