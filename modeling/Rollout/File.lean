import Rollout.Store.Basic
import Rollout.Text.Utf8
/-!
# Files

What stands at a path: nothing, a directory, or a file with its bytes. Where a store is opened,
nothing and an empty file become a new store; a directory and foreign content are refused; a
database opens if none of the four tables has rows of another type.
-/

namespace Rollout

inductive FileState where
  | absent
  | directory
  | content (bytes : Bytes)
  deriving DecidableEq, Repr

namespace FileState

def bytes? : FileState → Option Bytes
  | .content bytes => some bytes
  | _ => none

/-- The text of a file, which must be well-formed. -/
def text? (f : FileState) : Option String := f.bytes?.bind Utf8.string?

end FileState

/-- What stands where a store is opened. -/
inductive StoreFile where
  | absent
  | directory
  | foreign (content : Bytes)
  | database (store : Store) (mistyped : List String)

namespace StoreFile

def tableNames : List String := ["apps", "processes", "deployments", "route_mappings"]

def openStore : StoreFile → Except StoreError Store
  | .absent => .ok .empty
  | .directory => .error (.unopened "a directory")
  | .foreign [] => .ok .empty
  | .foreign _ => .error (.unopened "not a database")
  | .database store mistyped =>
    match tableNames.find? mistyped.contains with
    | none => .ok store
    | some name => .error (.table s!"rows of {name} have another type")

end StoreFile
end Rollout
