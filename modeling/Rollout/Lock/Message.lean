/-!
# Messages to the lock service

What is locked, by whom, and for how long.
-/

namespace Rollout

inductive ResourceKind where
  | unknown
  | lock
  | presence
  deriving DecidableEq, Repr

namespace ResourceKind

def ofNumber? (n : Int) : Option ResourceKind :=
  if n = 0 then some .unknown
  else if n = 1 then some .lock
  else if n = 2 then some .presence
  else none

def number : ResourceKind → Int32
  | .unknown => 0
  | .lock => 1
  | .presence => 2

def name : ResourceKind → String
  | .unknown => "Unknown"
  | .lock => "Lock"
  | .presence => "Presence"

end ResourceKind

/-- A resource keeps the number of its kind, which may be the number of none. -/
structure Resource where
  key : String
  owner : String
  value : String
  typeCode : Int32
  deriving DecidableEq, Repr

namespace Resource

def empty : Resource := ⟨"", "", "", 0⟩

/-- The kind of the resource; a number without a kind is unknown. -/
def kind (r : Resource) : ResourceKind :=
  (ResourceKind.ofNumber? r.typeCode.toInt).getD .unknown

end Resource

structure LockRequest where
  resource : Option Resource
  ttlInSeconds : Int64
  deriving DecidableEq, Repr

structure ReleaseRequest where
  resource : Option Resource
  deriving DecidableEq, Repr

end Rollout
