import Rollout.Rehearsal.Script
import Rollout.Proofs.Store

/-!
# The store serves four maps

Apart from the edits, the steps on a store put, find, delete and list records. They are answered as
four maps from keys to records would answer them, whatever texts and numbers the records hold: the
encoded rows cannot be told from the records themselves.
-/

namespace Rollout

namespace Records

def empty : Records := ⟨fun _ => none, fun _ => none, fun _ => none, fun _ => none⟩

/-- Of several records with one key the last is kept. -/
def put (m : Records) : Rehearsal.AnyRecord → Records
  | .app a => { m with app := Function.update m.app a.guid (some a) }
  | .process p => { m with process := Function.update m.process p.guid (some p) }
  | .deployment d => { m with deployment := Function.update m.deployment d.guid (some d) }
  | .route r => { m with route := Function.update m.route r.guid (some r) }

def dropProcess (m : Records) (key : Guid) : Records :=
  { m with process := Function.update m.process key none }

end Records

namespace Rehearsal

/-- How maps answer a step, and the maps after it. -/
inductive Serves (m : Records) : StoreStep → Reply → Records → Prop
  | put (r : AnyRecord) : Serves m (.put r) .done (m.put r)
  | getApp (key : Guid) : Serves m (.getApp key) (.app (m.app key)) m
  | getProcess (key : Guid) : Serves m (.getProcess key) (.process (m.process key)) m
  | getDeployment (key : Guid) : Serves m (.getDeployment key) (.deployment (m.deployment key)) m
  | deleteProcess (key : Guid) :
      Serves m (.deleteProcess key) (.flag (m.process key).isSome) (m.dropProcess key)
  | deploymentsIn (state : DeploymentState) (ds : List Deployment)
      (h : Lists m.deployment (fun d => d.state = state) ds) :
      Serves m (.deploymentsIn state) (.deployments ds) m
  | routesOf (process : Guid) (rs : List Route)
      (h : Lists m.route (fun r => r.process = process) rs) :
      Serves m (.routesOf process) (.routes rs) m

/-- How maps answer steps one after another. -/
inductive ServesAll : Records → List StoreStep → List Reply → Records → Prop
  | nil (m : Records) : ServesAll m [] [] m
  | cons {m m' m'' : Records} {step : StoreStep} {reply : Reply} {steps : List StoreStep}
      {replies : List Reply} (hstep : Serves m step reply m')
      (hrest : ServesAll m' steps replies m'') :
      ServesAll m (step :: steps) (reply :: replies) m''

/-- A step that puts, finds, deletes or lists records. -/
def StoreStep.Plain : StoreStep → Prop
  | .put _ | .getApp _ | .getProcess _ | .getDeployment _ | .deleteProcess _ | .deploymentsIn _
  | .routesOf _ => True
  | .malformed | .make _ | .edit _ _ | .dump _ _ _ _ => False

variable {s : Store}

theorem keyed_put (h : s.Keyed) (r : AnyRecord) : (r.put s).Keyed := by
  cases r <;> exact Store.Keyed.put h _

theorem records_put (s : Store) (r : AnyRecord) : (r.put s).records = s.records.put r := by
  cases r with
  | app a => exact Store.records_put_app s a
  | process p => exact Store.records_put_process s p
  | deployment d => exact Store.records_put_deployment s d
  | route r => exact Store.records_put_route s r

theorem isSome_find?_process (h : s.Keyed) (key : Guid) :
    (s.processes.find? key).isSome = (s.records.process key).isSome := by
  change _ = ((s.processes.find? key).bind Record.decode?).isSome
  cases hb : s.processes.find? key with
  | none => rfl
  | some bytes =>
      obtain ⟨p, hp, -⟩ := h.processes key bytes hb
      rw [Option.bind_some, hp]
      rfl

theorem serves_run (h : s.Keyed) (now : Time) {step : StoreStep} (hstep : step.Plain) :
    Serves s.records step (step.run now s).1 (step.run now s).2.2.records := by
  cases step with
  | put r =>
      have hserves := Serves.put (m := s.records) r
      rw [← records_put] at hserves
      exact hserves
  | getApp key =>
      rw [StoreStep.run, Store.get?_eq h]
      exact .getApp key
  | getProcess key =>
      rw [StoreStep.run, Store.get?_eq h]
      exact .getProcess key
  | getDeployment key =>
      rw [StoreStep.run, Store.get?_eq h]
      exact .getDeployment key
  | deleteProcess key =>
      have hserves := Serves.deleteProcess (m := s.records) key
      rw [Records.dropProcess, ← Store.records_drop_process, ← isSome_find?_process h] at hserves
      exact hserves
  | deploymentsIn state =>
      rw [StoreStep.run, Store.deploymentsIn, Store.select_eq h]
      exact .deploymentsIn state _ (h.deployments.lists_filter_records fun d => d.state = state)
  | routesOf process =>
      rw [StoreStep.run, Store.routesOf, Store.select_eq h]
      exact .routesOf process _ (h.routes.lists_filter_records fun r => r.process = process)
  | malformed | make | edit | dump => cases hstep

theorem keyed_run (h : s.Keyed) (now : Time) {step : StoreStep} (hstep : step.Plain) :
    (step.run now s).2.2.Keyed := by
  cases step with
  | put r => exact keyed_put h r
  | deleteProcess key => exact h.drop key
  | getApp | getProcess | getDeployment | deploymentsIn | routesOf => exact h
  | malformed | make | edit | dump => cases hstep

theorem servesAll_runAll (h : s.Keyed) (now : Time) {steps : List StoreStep}
    (hsteps : ∀ step ∈ steps, step.Plain) :
    ServesAll s.records steps (StoreStep.runAll now s steps).1
      (StoreStep.runAll now s steps).2.2.records := by
  induction steps generalizing s with
  | nil => exact .nil _
  | cons step steps ih =>
      have hstep := hsteps step List.mem_cons_self
      have hrest := ih (keyed_run h now hstep)
        fun later hl => hsteps later (List.mem_cons_of_mem _ hl)
      exact .cons (serves_run h now hstep) hrest

/-- A store that starts without rows answers as maps that start empty, and no record is changed by
its encoding. -/
theorem store_serves_maps :
    (∀ (now : Time) (steps : List StoreStep), (∀ step ∈ steps, step.Plain) →
      ServesAll .empty steps (StoreStep.runAll now .empty steps).1
        (StoreStep.runAll now .empty steps).2.2.records) ∧
      (∀ a : App, Record.decode? (Record.encode a) = some a) ∧
      (∀ p : AppProcess, Record.decode? (Record.encode p) = some p) ∧
      (∀ d : Deployment, Record.decode? (Record.encode d) = some d) ∧
      ∀ r : Route, Record.decode? (Record.encode r) = some r :=
  ⟨fun now _ hsteps => servesAll_runAll Store.keyed_empty now hsteps, Record.decode?_encode,
    Record.decode?_encode, Record.decode?_encode, Record.decode?_encode⟩

/-- Keys with quotes, control characters and characters beyond the first plane, a record put
twice, and a process that is deleted. -/
theorem store_serves_maps_sample :
    let key : Guid := "a\"\\\u0000😀"
    let steps : List StoreStep :=
      [.put (.process ⟨key, "é", "web\n", 4294967295, .stopped, 0, 18446744073709551615⟩),
        .put (.deployment ⟨key, "é", .canceled, none, some key, [key, "", key], 1, 2⟩),
        .put (.deployment ⟨key, "é", .deploying, some "", none, [], 1, 2⟩),
        .deploymentsIn .deploying, .deleteProcess key, .deleteProcess key, .getProcess key]
    (∀ step ∈ steps, step.Plain) ∧
      ServesAll .empty steps (StoreStep.runAll 7 .empty steps).1
        (StoreStep.runAll 7 .empty steps).2.2.records := by
  intro key steps
  have hplain : ∀ step ∈ steps, step.Plain := by simp [steps, StoreStep.Plain]
  exact ⟨hplain, store_serves_maps.1 7 steps hplain⟩

end Rehearsal
end Rollout
