import Rollout.Table
import Rollout.Json.Field
/-!
# Instances

What a backend says about the instances of a process: for each index a state and two times. A
state that is not known by name counts as unknown, which is not running.
-/

namespace Rollout

open Json (ofText ofNat ofFields fields? uint64? tag?)

inductive InstanceState where
  | running
  | starting
  | crashed
  | down
  | failing
  | unknown
  deriving DecidableEq, Repr

namespace InstanceState

def name : InstanceState → String
  | .running => "RUNNING"
  | .starting => "STARTING"
  | .crashed => "CRASHED"
  | .down => "DOWN"
  | .failing => "FAILING"
  | .unknown => "UNKNOWN"

def ofName (name : String) : InstanceState :=
  if name = "RUNNING" then .running
  else if name = "STARTING" then .starting
  else if name = "CRASHED" then .crashed
  else if name = "DOWN" then .down
  else if name = "FAILING" then .failing
  else .unknown

def toJson (s : InstanceState) : Json := ofText s.name

def ofJson? (j : Json) : Option InstanceState := (tag? j).map ofName

end InstanceState

structure InstanceStatus where
  state : InstanceState
  uptime : UInt64
  since : UInt64
  deriving DecidableEq, Repr

namespace InstanceStatus

def isRunning (s : InstanceStatus) : Bool := s.state = .running

def fieldNames : List String := ["state", "uptime", "since"]

def toJson (s : InstanceStatus) : Json :=
  ofFields
    [("state", s.state.toJson),
     ("uptime", ofNat s.uptime.toNat),
     ("since", ofNat s.since.toNat)]

def ofJson? (j : Json) : Option InstanceStatus := do
  let fields ← fields? fieldNames j
  return {
    state := ← fields.required "state" InstanceState.ofJson?
    uptime := ← fields.required "uptime" uint64?
    since := ← fields.required "since" uint64? }

end InstanceStatus

/-- The status of each instance, by index. -/
abbrev Instances := Table UInt32 InstanceStatus

namespace Instances

def running (m : Instances) : Nat := m.values.countP InstanceStatus.isRunning

/-- The index that a member's name spells: plain digits, without any escape. -/
def index? (raw : List Symbol) : Option UInt32 := do
  let digits ← Utf8.chars? raw
  let n ← Json.Number.natural? digits
  if n < UInt32.size then some (UInt32.ofNat n) else none

def toJson (m : Instances) : Json :=
  .object (m.rows.map fun (i, s) => ((Json.Number.spell i.toNat).map .char, s.toJson))

def row? : List Symbol × Json → Option (UInt32 × InstanceStatus)
  | (raw, v) => do
    let i ← index? raw
    let s ← InstanceStatus.ofJson? v
    some (i, s)

/-- Of members with one index the last counts. -/
def ofJson? : Json → Option Instances
  | .object members => (members.mapM row?).map Table.ofList
  | _ => none

/-- The instances that the body of a response tells. -/
def ofBytes? (body : Bytes) : Option Instances := (Json.ofBytes? body).bind ofJson?

end Instances
end Rollout
