import Rollout.Text.Graphic
/-!
# Quoted text

Messages quote a text between double quotes. A quote, a backslash and the common controls have a
short escape, and every other character that is not graphic is written as its code point in
lower-case hexadecimal between braces.
-/

namespace Rollout.Text

def codePoint (c : Char) : List Char := Nat.toDigits 16 c.toNat

def quoteChar (c : Char) : List Char :=
  if c == '\x00' then ['\\', '0']
  else if c == '\t' then ['\\', 't']
  else if c == '\r' then ['\\', 'r']
  else if c == '\n' then ['\\', 'n']
  else if c == '"' then ['\\', '"']
  else if c == '\\' then ['\\', '\\']
  else if isGraphic c then [c]
  else ['\\', 'u', '\x7b'] ++ codePoint c ++ ['\x7d']

/-- The text between double quotes. -/
def quoted (s : String) : String :=
  String.ofList ('"' :: s.toList.flatMap quoteChar ++ ['"'])

/-- A path between double quotes, in which an apostrophe is escaped too. -/
def quotedPath (path : String) : String :=
  let escape (c : Char) := if c = Char.ofNat 0x27 then ['\\', c] else quoteChar c
  String.ofList ('"' :: path.toList.flatMap escape ++ ['"'])

/-- An optional text, marked as there or not there. -/
def quotedOption : Option String → String
  | none => "None"
  | some s => "Some(" ++ quoted s ++ ")"

end Rollout.Text
