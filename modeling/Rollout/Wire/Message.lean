import Rollout.Wire.Field
import Rollout.Lock.Message
/-!
# Messages on the wire

Fields that have their default value are not written. When a message is read, fields with unknown
numbers are passed over, the last of several values counts, and several resources are merged field
by field; a known field with a payload of another shape is refused.
-/

namespace Rollout.Wire

/-- The depth to which groups may be nested in a message. -/
def maxDepth : Nat := 100

/-- A text field, if the text is not empty. -/
def textField (number : Nat) (s : String) : List Field :=
  if s = "" then [] else [⟨number, .bytes (Utf8.encode s)⟩]

/-- A number field, if the number is not zero. -/
def numberField (number : Nat) (n : UInt64) : List Field :=
  if n = 0 then [] else [⟨number, .varint n.toNat⟩]

def text? : Payload → Option String
  | .bytes content => Utf8.string? content
  | _ => none

def number? : Payload → Option UInt64
  | .varint n => some (UInt64.ofNat n)
  | _ => none

/-- The low 32 bits as a signed number. -/
def low32 (n : UInt64) : Int32 := n.toUInt32.toInt32

end Wire

open Wire

namespace Resource

def fields (r : Resource) : List Field :=
  textField 1 r.key ++ textField 2 r.owner ++ textField 3 r.value ++
    numberField 5 r.typeCode.toInt64.toUInt64

def encode (r : Resource) : Bytes := Field.writeAll r.fields

/-- Takes one more field into the resource. -/
def merge (r : Resource) (f : Field) : Option Resource :=
  match f.number with
  | 1 => (text? f.payload).map fun s => { r with key := s }
  | 2 => (text? f.payload).map fun s => { r with owner := s }
  | 3 => (text? f.payload).map fun s => { r with value := s }
  | 5 => (number? f.payload).map fun n => { r with typeCode := low32 n }
  | _ => some r

/-- Takes the fields of an encoded resource into this one. -/
def mergeBytes (depth : Nat) (r : Resource) (bytes : Bytes) : Option Resource := do
  (← Field.readAll depth bytes).foldlM merge r

def decode? (bytes : Bytes) : Option Resource := mergeBytes maxDepth .empty bytes

/-- Takes a field that holds a resource into one that may be there. -/
def mergeField (r : Option Resource) : Payload → Option (Option Resource)
  | .bytes content => (mergeBytes (maxDepth - 1) (r.getD .empty) content).map some
  | _ => none

/-- The field of a resource, if there is one; an empty resource is written too. -/
def field (r : Option Resource) : List Field :=
  match r with
  | none => []
  | some r => [⟨1, .bytes r.encode⟩]

end Resource

namespace LockRequest

def empty : LockRequest := ⟨none, 0⟩

def fields (m : LockRequest) : List Field :=
  Resource.field m.resource ++ numberField 2 m.ttlInSeconds.toUInt64

def encode (m : LockRequest) : Bytes := Field.writeAll m.fields

def merge (m : LockRequest) (f : Field) : Option LockRequest :=
  match f.number with
  | 1 => (Resource.mergeField m.resource f.payload).map fun r => { m with resource := r }
  | 2 => (number? f.payload).map fun n => { m with ttlInSeconds := n.toInt64 }
  | _ => some m

def decode? (bytes : Bytes) : Option LockRequest := do
  (← Field.readAll maxDepth bytes).foldlM merge empty

end LockRequest

namespace ReleaseRequest

def empty : ReleaseRequest := ⟨none⟩

def encode (m : ReleaseRequest) : Bytes := Field.writeAll (Resource.field m.resource)

def merge (m : ReleaseRequest) (f : Field) : Option ReleaseRequest :=
  match f.number with
  | 1 => (Resource.mergeField m.resource f.payload).map fun r => { m with resource := r }
  | _ => some m

def decode? (bytes : Bytes) : Option ReleaseRequest := do
  (← Field.readAll maxDepth bytes).foldlM merge empty

end ReleaseRequest

/-- The answer to either request says nothing. -/
structure Acknowledgement where
  deriving DecidableEq, Repr

namespace Acknowledgement

def encode (_ : Acknowledgement) : Bytes := []

def decode? (bytes : Bytes) : Option Acknowledgement :=
  (Field.readAll maxDepth bytes).map fun _ => ⟨⟩

end Acknowledgement
end Rollout
