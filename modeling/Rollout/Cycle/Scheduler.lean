import Rollout.Cycle.Basic
import Rollout.Lock.Client
/-!
# The scheduler

A scheduler calls for a cycle, makes its steps one at a time and waits before it calls for the next
one. Between any two steps an attempt for the lock may be answered, or a stop may join the renewal
loop.
-/

namespace Rollout

/-- What the scheduler is about. -/
inductive Scheduler.Task where
  | due
  | listing (p : Pass)
  /-- In a turn, with the entries of the turns before it and the deployments still to come. -/
  | turning (p : Pass) (before : Report) (d : Deployment) (turn : Turn)
      (asked : Option AppProcess) (rest : List Deployment)
  | waiting
  | over

structure Scheduler where
  /-- The client of the lock that cycles are gated on, if they are. -/
  lock : Option LockClient
  task : Scheduler.Task
  store : Store
  /-- The processes that the reporter was asked about so far. -/
  questions : List AppProcess
  /-- What each call for a cycle came to. -/
  results : List (Option Report)

namespace Scheduler

/-- What happens to a scheduler and its lock, one moment after another. -/
inductive Moment where
  /-- An attempt for the lock is answered, of the renewal loop or not. -/
  | attempted (grant : Grant)
  /-- A stop has joined the renewal loop. -/
  | joined
  | called (p : Pass)
  | advanced
  | slept
  | shutDown

def start (lock : Option LockClient) (s : Store) : Scheduler := ⟨lock, .due, s, [], []⟩

def admits (σ : Scheduler) : Bool := σ.lock.all LockClient.admits

/-- The call has come to its result; the scheduler waits before the next one. -/
def finish (σ : Scheduler) (r : Option Report) : Scheduler :=
  { σ with task := .waiting, results := σ.results ++ [r] }

def takeUp (σ : Scheduler) (p : Pass) (before : Report) : List Deployment → Scheduler
  | [] => σ.finish (some before)
  | d :: rest => { σ with task := .turning p before d .readApp none rest }

/-- One step of a turn. -/
def stepTurn (σ : Scheduler) (p : Pass) (before : Report) (d : Deployment) (turn : Turn)
    (asked : Option AppProcess) (rest : List Deployment) : Scheduler :=
  let n := before.length
  let (next, s) := turn.step p.stopOthers (p.clock n) d (turn.heard (p.reporter n)) σ.store
  { σ with
    task := .turning p before d next (turn.question.or asked) rest
    store := s
    questions := σ.questions ++ turn.question.toList }

/-- One step of a cycle that has begun. -/
def advance (σ : Scheduler) : Option Scheduler :=
  match σ.task with
  | .listing p =>
    match Cycle.agenda σ.store with
    | .error _ => some (σ.finish none)
    | .ok ds => some (σ.takeUp p [] ds)
  | .turning p before d (.ended r) asked rest =>
    some (σ.takeUp p (before ++ [⟨d.guid, asked, r⟩]) rest)
  | .turning p before d turn asked rest => some (σ.stepTurn p before d turn asked rest)
  | _ => none

def step (σ : Scheduler) : Moment → Option Scheduler
  | .attempted grant => some { σ with lock := σ.lock.map (·.answered grant) }
  | .joined => some { σ with lock := σ.lock.map LockClient.stopped }
  | .called p =>
    match σ.task with
    | .due => some (if σ.admits then { σ with task := .listing p } else σ.finish none)
    | _ => none
  | .advanced => σ.advance
  | .slept =>
    match σ.task with
    | .waiting => some { σ with task := .due }
    | _ => none
  | .shutDown =>
    match σ.task with
    | .waiting => some { σ with task := .over }
    | _ => none

def run (σ : Scheduler) (ms : List Moment) : Option Scheduler := ms.foldlM step σ

end Scheduler
end Rollout
