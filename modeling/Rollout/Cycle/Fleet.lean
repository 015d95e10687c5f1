import Rollout.Cycle.Basic
import Mathlib.Logic.Function.Basic
/-!
# Replicas that share a store

Any number of replicas run cycles on one store. One step of one replica reads the list of
deployments, makes one step of a turn or goes on to the next deployment, and the steps of different
replicas come in any order. A turn may therefore hold records that others have replaced meanwhile.
-/

namespace Rollout

/-- A replica between two cycles, or in a turn with deployments still to come. -/
inductive Replica where
  | idle
  | busy (d : Deployment) (turn : Turn) (rest : List Deployment)

/-- An edit that was committed, with what it reported. -/
structure Commit where
  plan : Plan
  change : Change

namespace Replica

def takeUp : List Deployment → Replica
  | [] => .idle
  | d :: rest => .busy d .readApp rest

/-- The commit that a step of a turn has made. -/
def committed (d : Deployment) : Turn → Turn → List Commit
  | .commit pair, .ended (.ok (.moved change)) => [⟨pair.plan d, change⟩]
  | _, _ => []

def step (stopOthers : Bool) (now : Time) (answer : Answer) :
    Replica → Store → Replica × Store × List Commit
  | .idle, s =>
    match Cycle.agenda s with
    | .ok ds => (takeUp ds, s, [])
    | .error _ => (.idle, s, [])
  | .busy _ (.ended _) rest, s => (takeUp rest, s, [])
  | .busy d turn rest, s =>
    let (next, s) := Turn.step stopOthers now d answer turn s
    (.busy d next rest, s, committed d turn next)

end Replica

/-- The replicas, the store that they share and what they have committed so far. -/
structure Fleet where
  replica : Nat → Replica
  store : Store
  commits : List Commit

/-- A step of one replica, at some time and with some answer of its reporter. -/
structure Move where
  replica : Nat
  now : Time
  answer : Answer

namespace Fleet

def start (s : Store) : Fleet := ⟨fun _ => .idle, s, []⟩

/-- Each replica has its own option to stop the other processes of an app. -/
def step (stopOthers : Nat → Bool) (f : Fleet) (m : Move) : Fleet :=
  let (replica, store, commits) :=
    (f.replica m.replica).step (stopOthers m.replica) m.now m.answer f.store
  ⟨Function.update f.replica m.replica replica, store, f.commits ++ commits⟩

def after (stopOthers : Nat → Bool) (moves : List Move) (s : Store) : Fleet :=
  moves.foldl (step stopOthers) (start s)

end Fleet
end Rollout
