/-!
# Errors of the lock service

A call of the lock service is answered by a status code and a text. That the lock exists already
means that another owner holds it; every other code is a failed call.
-/

namespace Rollout

inductive LockError where
  | alreadyHeld (text : String)
  | transport (text : String)
  | config (text : String)
  deriving DecidableEq, Repr

def LockError.message : LockError → String
  | .alreadyHeld text => "lock already held: " ++ text
  | .transport text => "lock service transport error: " ++ text
  | .config text => "lock client configuration error: " ++ text

/-- The status codes of a call, in the order of their numbers. -/
inductive StatusCode where
  | ok
  | cancelled
  | unknown
  | invalidArgument
  | deadlineExceeded
  | notFound
  | alreadyExists
  | permissionDenied
  | resourceExhausted
  | failedPrecondition
  | aborted
  | outOfRange
  | unimplemented
  | internal
  | unavailable
  | dataLoss
  | unauthenticated
  deriving DecidableEq, Repr

namespace StatusCode

/-- The code with this number; a number without a code is unknown. -/
def ofNumber : Nat → StatusCode
  | 0 => .ok
  | 1 => .cancelled
  | 3 => .invalidArgument
  | 4 => .deadlineExceeded
  | 5 => .notFound
  | 6 => .alreadyExists
  | 7 => .permissionDenied
  | 8 => .resourceExhausted
  | 9 => .failedPrecondition
  | 10 => .aborted
  | 11 => .outOfRange
  | 12 => .unimplemented
  | 13 => .internal
  | 14 => .unavailable
  | 15 => .dataLoss
  | 16 => .unauthenticated
  | _ => .unknown

def name : StatusCode → String
  | .ok => "Ok"
  | .cancelled => "Cancelled"
  | .unknown => "Unknown"
  | .invalidArgument => "InvalidArgument"
  | .deadlineExceeded => "DeadlineExceeded"
  | .notFound => "NotFound"
  | .alreadyExists => "AlreadyExists"
  | .permissionDenied => "PermissionDenied"
  | .resourceExhausted => "ResourceExhausted"
  | .failedPrecondition => "FailedPrecondition"
  | .aborted => "Aborted"
  | .outOfRange => "OutOfRange"
  | .unimplemented => "Unimplemented"
  | .internal => "Internal"
  | .unavailable => "Unavailable"
  | .dataLoss => "DataLoss"
  | .unauthenticated => "Unauthenticated"

end StatusCode

/-- The error that a status of a failed call stands for. -/
def LockError.ofStatus (code : StatusCode) (text : String) : LockError :=
  match code with
  | .alreadyExists => .alreadyHeld text
  | code => .transport s!"{code.name}: {text}"

end Rollout
