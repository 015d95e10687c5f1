import Rollout.Json.Text
/-!
# Written JSON

The compact form: no space between tokens, members in their order.
-/

namespace Rollout.Json

mutual

/-- The symbols of a document. -/
def write : Json → List Symbol
  | .null => "null".toList.map .char
  | .bool true => "true".toList.map .char
  | .bool false => "false".toList.map .char
  | .number lexeme => lexeme.map .char
  | .string raw => writeString raw
  | .array [] => [.char '[', .char ']']
  | .array (v :: rest) => .char '[' :: write v ++ writeElements rest
  | .object [] => [.char '\x7b', .char '\x7d']
  | .object ((k, v) :: rest) =>
    .char '\x7b' :: writeString k ++ .char ':' :: write v ++ writeMembers rest

/-- The elements after the first, and the closing bracket. -/
def writeElements : List Json → List Symbol
  | [] => [.char ']']
  | v :: rest => .char ',' :: write v ++ writeElements rest

/-- The members after the first, and the closing brace. -/
def writeMembers : List (List Symbol × Json) → List Symbol
  | [] => [.char '\x7d']
  | (k, v) :: rest => .char ',' :: writeString k ++ .char ':' :: write v ++ writeMembers rest

/-- A string between its quotes. -/
def writeString (raw : List Symbol) : List Symbol := .char '"' :: raw ++ [.char '"']

end

/-- The written document as text; it has no stray bytes to lose where its strings have none. -/
def toText (j : Json) : String :=
  String.ofList ((write j).filterMap fun
    | .char c => some c
    | .stray _ => none)

end Rollout.Json
