import Rollout.Rehearsal.World
/-!
# Cycles of a rehearsal

A cycle goes on from deployment to deployment until it is over or the reporter takes time to
answer. What the records say when the answer is there is what counts for the edit.
-/

namespace Rollout.Rehearsal

/-- A cycle that waits for an answer of the reporter. -/
structure Waiting where
  stopOthers : Bool
  deployment : Deployment
  pair : Pair
  answer : Answer
  query : Query
  rest : List Deployment
  before : Report

inductive Progress where
  | ended (report : Report)
  | waiting (w : Waiting) (delay : Nat)

namespace World

/-- The end of a turn whose answer is there. -/
def answerTurn (w : World) (stopOthers : Bool) (d : Deployment) (pair : Pair) (answer : Answer)
    (query : Query) : Entry × World :=
  let w := w.race query
  match Turn.verdict pair answer with
  | .ended r =>
    (⟨d.guid, some pair.new, r⟩, w.note (Turn.events (.ask pair) (.ended r) ++ [Turn.closing r]))
  | _ =>
    let (r, store) := Turn.conclude stopOthers w.wallTime d pair w.store
    let w := { w with store := store }
    (⟨d.guid, some pair.new, r⟩, w.note (Turn.events (.commit pair) (.ended r) ++ [Turn.closing r]))

/-- Takes up these deployments; the entries before them are known. -/
def proceed (stopOthers : Bool) : Report → List Deployment → World → Progress × World
  | before, [], w => (.ended before, w.note [.cycleFinished])
  | before, d :: rest, w =>
    match Turn.pairOf w.store d with
    | .error e =>
      proceed stopOthers (before ++ [⟨d.guid, none, .error e⟩]) rest
        (w.note [Turn.closing (.error e)])
    | .ok pair =>
      let (answer, query) := w.ask pair.new
      if answer.delay = 0 then
        let (entry, w) := w.answerTurn stopOthers d pair answer.value query
        proceed stopOthers (before ++ [entry]) rest w
      else (.waiting ⟨stopOthers, d, pair, answer.value, query, rest, before⟩ answer.delay, w)

def resume (w : World) (c : Waiting) : Progress × World :=
  let (entry, w) := w.answerTurn c.stopOthers c.deployment c.pair c.answer c.query
  w.proceed c.stopOthers (c.before ++ [entry]) c.rest

def beginCycle (w : World) (stopOthers : Bool) : Except UpdateError Progress × World :=
  let w := w.note [.cycleStarted]
  match Cycle.agenda w.store with
  | .error e => (.error (.store e), w)
  | .ok ds =>
    let (progress, w) := w.proceed stopOthers [] ds
    (.ok progress, w)

/-- Whether a cycle may run: always, unless the lock client guards it. -/
def admits (w : World) (gated : Bool) : Bool :=
  match w.lock with
  | some c => !gated || c.admits
  | none => true

/-- A cycle of the scheduler, if the lock allows one; a failure is left in the log. -/
def beginGuarded (w : World) (gated stopOthers : Bool) : Option Progress × World :=
  if w.admits gated then
    match w.beginCycle stopOthers with
    | (.ok progress, w) => (some progress, w)
    | (.error _, w) => (none, w.note [.cycleFailed])
  else (none, w.note [.cycleNotAdmitted])

end World
end Rollout.Rehearsal
