import Rollout.Rehearsal.Script
/-!
# The world of a rehearsal

The store, the services that the script speaks for, the lock client, and what has been seen since
the last step. Time is virtual: it passes only while somebody waits.
-/

namespace Rollout.Rehearsal

/-- What a script's word on a process means for a process with so many instances. -/
def Say.answer (p : AppProcess) : Say → Answer
  | .instances m => .ok m
  | .failure e => .error e
  | .all state =>
    .ok (.ofList ((List.range p.instances.toNat).map fun i => (UInt32.ofNat i, ⟨state, 0, 0⟩)))

/-- A question that the reporter was asked, with the replies of the steps that ran before it was
answered. -/
structure Query where
  process : Guid
  instances : UInt32
  time : Nat
  raced : Option (List Reply)

structure TimedCall where
  call : LockCall
  time : Nat

/-- Answers in order; the last one is given again and again. -/
structure Answers (α : Type) where
  queue : List (Delayed α)
  last : Delayed α

namespace Answers

variable {α : Type}

def extend (a : Answers α) (more : List (Delayed α)) : Answers α :=
  { a with queue := a.queue ++ more }

def next (a : Answers α) : Delayed α × Answers α :=
  match a.queue with
  | [] => (a.last, a)
  | x :: rest => (x, ⟨rest, x⟩)

end Answers

structure World where
  clock : Nat
  wallTime : Time
  onDisk : Bool
  store : Store
  stopOthers : Bool
  spoken : Table Guid (Delayed Say)
  races : List (Guid × List StoreStep)
  lock : Option LockClient
  grants : Answers Grant
  releases : Answers Grant
  queries : List Query
  calls : List TimedCall
  log : List Event

namespace World

def initial (wallTime : Time) (onDisk : Bool) (store : Store) : World where
  clock := 0
  wallTime := wallTime
  onDisk := onDisk
  store := store
  stopOthers := true
  spoken := ∅
  races := []
  lock := none
  grants := ⟨[], ⟨.error (.alreadyHeld "lock-collision"), 0⟩⟩
  releases := ⟨[], ⟨.ok (), 0⟩⟩
  queries := []
  calls := []
  log := []

def note (w : World) (events : List Event) : World := { w with log := w.log ++ events }

def openEvent (w : World) : Event := if w.onDisk then .storeOpened else .memoryStoreOpened

/-- The steps that race with the next question about this process, and the races that are left. -/
def takeRace (process : Guid) : List (Guid × List StoreStep) →
    Option (List StoreStep) × List (Guid × List StoreStep)
  | [] => (none, [])
  | (g, steps) :: rest =>
    if g = process then (some steps, rest)
    else
      let (found, rest) := takeRace process rest
      (found, (g, steps) :: rest)

/-- Asks the reporter: what it says comes after a delay. -/
def ask (w : World) (p : AppProcess) : Delayed Answer × Query :=
  let said := (w.spoken.find? p.guid).getD ⟨.instances ∅, 0⟩
  (⟨said.value.answer p, said.delay⟩, ⟨p.guid, p.instances, w.clock, none⟩)

/-- The answer to a question is due: the steps that race with it run first. -/
def race (w : World) (query : Query) : World :=
  match takeRace query.process w.races with
  | (none, _) => { w with queries := w.queries ++ [query] }
  | (some steps, races) =>
    let (replies, events, store) := StoreStep.runAll w.wallTime w.store steps
    { w with
      store := store
      races := races
      queries := w.queries ++ [{ query with raced := some replies }] }.note events

/-- Sends a request to the lock service. -/
def request (w : World) (call : LockCall) : Delayed Grant × World :=
  let w := { w with calls := w.calls ++ [TimedCall.mk call w.clock] }
  match call with
  | .lock _ =>
    let (grant, grants) := w.grants.next
    (grant, { w with grants := grants })
  | .release _ =>
    let (grant, releases) := w.releases.next
    (grant, { w with releases := releases })

/-- An attempt of the lock client has been answered. -/
def attempted (w : World) (grant : Grant) : World :=
  match w.lock with
  | none => w
  | some c => { w with lock := some (c.answered grant) }.note (c.attemptEvents grant)

end World
end Rollout.Rehearsal
