import Rollout.Cycle.Turn
import Rollout.Cycle.Report
/-!
# Cycles

A cycle takes up every deployment that is under way when it begins, one after another in the order
of their keys. What happens to one deployment does not keep the cycle from the next; only a list
of deployments that cannot be read does.
-/

namespace Rollout

/-- What the reporter answers in a turn of a cycle, counted from zero. -/
abbrev Reporter := Nat → AppProcess → Answer

/-- The time of the commit in a turn of a cycle, counted from zero. -/
abbrev Clock := Nat → Time

namespace Cycle

/-- A whole turn on a store that nobody else writes. -/
def turn (stopOthers : Bool) (now : Time) (reporter : AppProcess → Answer) (d : Deployment)
    (s : Store) : Entry × Store :=
  match Turn.pairOf s d with
  | .error e => (⟨d.guid, none, .error e⟩, s)
  | .ok pair =>
    match Turn.verdict pair (reporter pair.new) with
    | .ended r => (⟨d.guid, some pair.new, r⟩, s)
    | _ =>
      let (r, s) := Turn.conclude stopOthers now d pair s
      (⟨d.guid, some pair.new, r⟩, s)

/-- The turns of these deployments, of which the first is the one with this number. -/
def turns (stopOthers : Bool) (clock : Clock) (reporter : Reporter) :
    Nat → List Deployment → Store → Report × Store
  | _, [], s => ([], s)
  | n, d :: rest, s =>
    let (entry, s) := turn stopOthers (clock n) (reporter n) d s
    let (report, s) := turns stopOthers clock reporter (n + 1) rest s
    (entry :: report, s)

/-- The deployments that a cycle takes up. -/
def agenda (s : Store) : Except StoreError (List Deployment) := s.deploymentsIn .deploying

def update (stopOthers : Bool) (clock : Clock) (reporter : Reporter) (s : Store) :
    Except UpdateError Report × Store :=
  match agenda s with
  | .error e => (.error (.store e), s)
  | .ok ds =>
    let (report, s) := turns stopOthers clock reporter 0 ds s
    (.ok report, s)

end Cycle

/-- A cycle, with the option, the clock and the reporter that it has. -/
structure Pass where
  stopOthers : Bool
  clock : Clock
  reporter : Reporter

namespace Pass

def run (p : Pass) (s : Store) : Except UpdateError Report × Store :=
  Cycle.update p.stopOthers p.clock p.reporter s

/-- The store after these cycles, with nothing in between. -/
def after : List Pass → Store → Store
  | [], s => s
  | p :: rest, s => after rest (p.run s).2

end Pass
end Rollout
