import Rollout.Json.Printer
/-!
# Fields of records

A record with named fields is read from an object whose known names occur once each, or from an
array with exactly one element for each field in order. Other names of the object are passed over,
whatever their values. Errors are not told apart: a document either is such a record or is not.
-/

namespace Rollout.Json

/-- The fields found, each known name at most once. -/
abbrev Fields := List (String × Json)

/-- The members with known names, none of which occurs twice. -/
def collect (names : List String) : List (List Symbol × Json) → Option Fields
  | [] => some []
  | (raw, v) :: rest => do
    let name ← meaning? raw
    let fields ← collect names rest
    if names.contains name then
      if fields.any (·.1 == name) then none else some ((name, v) :: fields)
    else some fields

def fields? (names : List String) : Json → Option Fields
  | .object members => collect names members
  | .array vs => if vs.length = names.length then some (names.zip vs) else none
  | _ => none

namespace Fields

def find? (fields : Fields) (name : String) : Option Json := fields.lookup name

def required {α : Type} (fields : Fields) (name : String) (read : Json → Option α) : Option α :=
  (fields.find? name).bind read

/-- A field that may be left out, or be null. -/
def nullable {α : Type} (fields : Fields) (name : String) (read : Json → Option α) :
    Option (Option α) :=
  match fields.find? name with
  | none => some none
  | some .null => some none
  | some v => (read v).map some

/-- A field that may be left out and then has this value. -/
def withDefault {α : Type} (fields : Fields) (name : String) (default : α)
    (read : Json → Option α) : Option α :=
  match fields.find? name with
  | none => some default
  | some v => read v

end Fields

def text? : Json → Option String
  | .string raw => meaning? raw
  | _ => none

/-- A natural below a bound. -/
def below? (bound : Nat) : Json → Option Nat
  | .number lexeme => do
    let n ← Number.natural? lexeme
    if n < bound then some n else none
  | _ => none

def uint32? (j : Json) : Option UInt32 := (below? UInt32.size j).map UInt32.ofNat

def uint64? (j : Json) : Option UInt64 := (below? UInt64.size j).map UInt64.ofNat

def listOf? {α : Type} (read : Json → Option α) : Json → Option (List α)
  | .array vs => vs.mapM read
  | _ => none

/-- The name of an alternative without content: a string, or an object whose only member has that
name and the value null. -/
def tag? : Json → Option String
  | .string raw => meaning? raw
  | .object [(raw, .null)] => meaning? raw
  | _ => none

def ofOption {α : Type} (write : α → Json) : Option α → Json
  | none => .null
  | some a => write a

/-- The object with these members, in this order. -/
def ofFields (fields : List (String × Json)) : Json :=
  .object (fields.map fun (name, v) => ((writeChars name.toList).map .char, v))

def toBytes (j : Json) : Bytes :=
  (write j).flatMap fun
    | .char c => String.utf8EncodeChar c
    | .stray b => [b]

end Rollout.Json
