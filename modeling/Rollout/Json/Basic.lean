import Rollout.Json.Token
/-!
# JSON documents

A document is a tree whose leaves keep their spelling, so that nothing is lost between reading a
text and deciding what a field of it means. Tokens are read by a machine with a stack: a frame is
an array or object that waits for the value being read.
-/

namespace Rollout

inductive Json where
  | null
  | bool (value : Bool)
  | number (lexeme : List Char)
  | string (raw : List Symbol)
  | array (elements : List Json)
  | object (members : List (List Symbol × Json))
  deriving Repr, Inhabited

namespace Json

/-- What encloses the value being read; elements and members before it are in reverse. -/
inductive Frame where
  | array (before : List Json)
  | object (before : List (List Symbol × Json)) (key : List Symbol)

/-- What the machine may read next. -/
inductive Reading where
  | value (stack : List Frame)
  | firstElement (stack : List Frame)
  | member (mayClose : Bool) (before : List (List Symbol × Json)) (stack : List Frame)
  | colon (before : List (List Symbol × Json)) (key : List Symbol) (stack : List Frame)
  | afterElement (before : List Json) (stack : List Frame)
  | afterMember (before : List (List Symbol × Json)) (stack : List Frame)
  | done (value : Json)

namespace Reading

/-- Hands a complete value to the frame that waits for it. -/
def deliver (v : Json) : List Frame → Reading
  | [] => .done v
  | .array before :: stack => .afterElement (v :: before) stack
  | .object before key :: stack => .afterMember ((key, v) :: before) stack

/-- Reads the first token of a value. -/
def start (stack : List Frame) : Token → Option Reading
  | .null => some (deliver .null stack)
  | .bool b => some (deliver (.bool b) stack)
  | .number lexeme => some (deliver (.number lexeme) stack)
  | .string raw => some (deliver (.string raw) stack)
  | .openArray => some (.firstElement stack)
  | .openObject => some (.member true [] stack)
  | _ => none

def advance : Reading → Token → Option Reading
  | .value stack, t => start stack t
  | .firstElement stack, .closeArray => some (deliver (.array []) stack)
  | .firstElement stack, t => start (.array [] :: stack) t
  | .member mayClose before stack, t =>
    match t with
    | .string raw => some (.colon before raw stack)
    | .closeObject => if mayClose then some (deliver (.object before.reverse) stack) else none
    | _ => none
  | .colon before key stack, .colon => some (.value (.object before key :: stack))
  | .afterElement before stack, .comma => some (.value (.array before :: stack))
  | .afterElement before stack, .closeArray => some (deliver (.array before.reverse) stack)
  | .afterMember before stack, .comma => some (.member false before stack)
  | .afterMember before stack, .closeObject => some (deliver (.object before.reverse) stack)
  | _, _ => none

def run : Reading → List Token → Option Reading
  | r, [] => some r
  | r, t :: rest =>
    match advance r t with
    | some r => run r rest
    | none => none

end Reading

def ofTokens? (tokens : List Token) : Option Json :=
  match Reading.run (.value []) tokens with
  | some (.done v) => some v
  | _ => none

def parse? (text : List Symbol) : Option Json := do
  ofTokens? (← Token.scan text)

def ofText? (text : String) : Option Json := parse? (text.toList.map .char)

def ofBytes? (bytes : Bytes) : Option Json := parse? (Utf8.decode bytes)

theorem Reading.run_append (r : Reading) (before after : List Token) :
    run r (before ++ after) = (run r before).bind (run · after) := by
  induction before generalizing r with
  | nil => rfl
  | cons t rest ih =>
    simp only [List.cons_append, run]
    cases advance r t with
    | none => rfl
    | some r => exact ih r

end Json
end Rollout
