import Rollout.Json.Basic
/-!
# Strings of JSON

What a string means and how it is written. A code unit escape of the high half of a surrogate pair
must be followed by one of the low half; a stray byte or a lone half means no text at all, although
a string that holds one may stand where nobody reads it. Writing escapes quotes, backslashes and
control characters only.
-/

namespace Rollout.Json

def hexValue (c : Char) : Nat :=
  if Number.isDigit c then Number.digitValue c
  else if 'a' ≤ c then c.toNat - 'a'.toNat + 10
  else c.toNat - 'A'.toNat + 10

/-- The code unit of four hexadecimal digits. -/
def codeUnit? : List Symbol → Option Nat
  | [.char a, .char b, .char c, .char d] =>
    if Token.isHexDigit a && Token.isHexDigit b && Token.isHexDigit c && Token.isHexDigit d then
      some (((hexValue a * 16 + hexValue b) * 16 + hexValue c) * 16 + hexValue d)
    else none
  | _ => none

def shortEscape? (c : Char) : Option Char :=
  if c == '"' then some '"'
  else if c == '\\' then some '\\'
  else if c == '/' then some '/'
  else if c == 'b' then some '\x08'
  else if c == 'f' then some '\x0c'
  else if c == 'n' then some '\n'
  else if c == 'r' then some '\r'
  else if c == 't' then some '\t'
  else none

def isHighHalf (u : Nat) : Bool := 0xD800 ≤ u && u < 0xDC00

def isLowHalf (u : Nat) : Bool := 0xDC00 ≤ u && u < 0xE000

def joinHalves (high low : Nat) : Nat := 0x10000 + (high - 0xD800) * 0x400 + (low - 0xDC00)

/-- What the reader of a string has seen of an escape. -/
inductive Pending where
  | none
  | backslash
  | digits (read : List Symbol)
  | high (unit : Nat)
  | highBackslash (unit : Nat)
  | highDigits (unit : Nat) (read : List Symbol)

/-- The characters that a string means, read after what is pending. -/
def meaningFrom : Pending → List Symbol → Option (List Char)
  | .none, [] => some []
  | _, [] => Option.none
  | .none, .char c :: rest =>
    if c == '\\' then meaningFrom .backslash rest else (meaningFrom .none rest).map (c :: ·)
  | .none, .stray _ :: _ => Option.none
  | .backslash, x :: rest =>
    match x with
    | .char c =>
      if c == 'u' then meaningFrom (.digits []) rest
      else do
        let e ← shortEscape? c
        (meaningFrom .none rest).map (e :: ·)
    | .stray _ => Option.none
  | .digits read, x :: rest =>
    if read.length < 3 then meaningFrom (.digits (read ++ [x])) rest
    else do
      let u ← codeUnit? (read ++ [x])
      if isHighHalf u then meaningFrom (.high u) rest
      else do
        let c ← Utf8.scalar? u
        (meaningFrom .none rest).map (c :: ·)
  | .high u, x :: rest => if x = .char '\\' then meaningFrom (.highBackslash u) rest else Option.none
  | .highBackslash u, x :: rest =>
    if x = .char 'u' then meaningFrom (.highDigits u []) rest else Option.none
  | .highDigits u read, x :: rest =>
    if read.length < 3 then meaningFrom (.highDigits u (read ++ [x])) rest
    else do
      let v ← codeUnit? (read ++ [x])
      if isLowHalf v then do
        let c ← Utf8.scalar? (joinHalves u v)
        (meaningFrom .none rest).map (c :: ·)
      else Option.none

/-- The text that a string means. -/
def meaning? (raw : List Symbol) : Option String :=
  (meaningFrom .none raw).map String.ofList

def hexDigit (n : Nat) : Char :=
  if n < 10 then Char.ofNat ('0'.toNat + n) else Char.ofNat ('a'.toNat + (n - 10))

/-- How one character is written between quotes. -/
def writeChar (c : Char) : List Char :=
  if c == '"' then ['\\', '"']
  else if c == '\\' then ['\\', '\\']
  else if c == '\x08' then ['\\', 'b']
  else if c == '\t' then ['\\', 't']
  else if c == '\n' then ['\\', 'n']
  else if c == '\x0c' then ['\\', 'f']
  else if c == '\r' then ['\\', 'r']
  else if c.toNat < 0x20 then
    ['\\', 'u', '0', '0', hexDigit (c.toNat / 16), hexDigit (c.toNat % 16)]
  else [c]

def writeChars (cs : List Char) : List Char := cs.flatMap writeChar

/-- The string node that means this text. -/
def ofText (s : String) : Json := .string ((writeChars s.toList).map .char)

def ofNat (n : Nat) : Json := .number (Number.spell n)

theorem meaningFrom_writeChar_plain {c : Char} (hq : c ≠ '\\') (rest : List Symbol) :
    meaningFrom .none (.char c :: rest) = (meaningFrom .none rest).map (c :: ·) := by
  simp [meaningFrom, hq]

end Rollout.Json
