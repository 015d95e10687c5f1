import Rollout.Text.Utf8
import Rollout.Json.Number
/-!
# Tokens of JSON text

The scanner walks over symbols one at a time. A string token keeps what stands between the quotes
as it is written: the shape of its escapes is checked here, what they mean is left to the reader
of the string. Stray bytes are allowed inside strings and nowhere else.
-/

namespace Rollout.Json

inductive Token where
  | openObject
  | closeObject
  | openArray
  | closeArray
  | colon
  | comma
  | null
  | bool (value : Bool)
  | number (lexeme : List Char)
  | string (raw : List Symbol)
  deriving DecidableEq, Repr

/-- Where the scanner stands; lexemes begun are kept in reverse. -/
inductive Scan where
  | gap
  | word (read : List Char)
  | number (read : List Char)
  | string (read : List Symbol)
  | escape (read : List Symbol)
  | hex (left : Nat) (read : List Symbol)
  deriving DecidableEq, Repr

namespace Token

def isSpace (c : Char) : Bool := c == ' ' || c == '\t' || c == '\n' || c == '\r'

def isWordChar (c : Char) : Bool := 'a' ≤ c && c ≤ 'z'

def isNumberChar (c : Char) : Bool :=
  Number.isDigit c || c == '-' || c == '+' || c == '.' || c == 'e' || c == 'E'

def isHexDigit (c : Char) : Bool :=
  Number.isDigit c || ('a' ≤ c && c ≤ 'f') || ('A' ≤ c && c ≤ 'F')

/-- The letters that may follow a backslash, the one of a code unit apart. -/
def isShortEscape (c : Char) : Bool :=
  c == '"' || c == '\\' || c == '/' || c == 'b' || c == 'f' || c == 'n' || c == 'r' || c == 't'

def ofWord : List Char → Option Token
  | ['n', 'u', 'l', 'l'] => some .null
  | ['t', 'r', 'u', 'e'] => some (.bool true)
  | ['f', 'a', 'l', 's', 'e'] => some (.bool false)
  | _ => none

def ofNumber (lexeme : List Char) : Option Token :=
  if Number.wellFormed lexeme then some (.number lexeme) else none

/-- A character between tokens: the token that it is, and where the scanner stands after it. -/
def start (c : Char) : Option (List Token × Scan) :=
  if isSpace c then some ([], .gap)
  else if c == '\x7b' then some ([.openObject], .gap)
  else if c == '\x7d' then some ([.closeObject], .gap)
  else if c == '[' then some ([.openArray], .gap)
  else if c == ']' then some ([.closeArray], .gap)
  else if c == ':' then some ([.colon], .gap)
  else if c == ',' then some ([.comma], .gap)
  else if c == '"' then some ([], .string [])
  else if isWordChar c then some ([], .word [c])
  else if c == '-' || Number.isDigit c then some ([], .number [c])
  else none

/-- The tokens that one more character completes. -/
def advance : Scan → Char → Option (List Token × Scan)
  | .gap, c => start c
  | .word read, c =>
    if isWordChar c then some ([], .word (c :: read))
    else do
      let token ← ofWord read.reverse
      let (tokens, scan) ← start c
      some (token :: tokens, scan)
  | .number read, c =>
    if isNumberChar c then some ([], .number (c :: read))
    else do
      let token ← ofNumber read.reverse
      let (tokens, scan) ← start c
      some (token :: tokens, scan)
  | .string read, c =>
    if c == '"' then some ([.string read.reverse], .gap)
    else if c == '\\' then some ([], .escape (.char c :: read))
    else if c.toNat < 0x20 then none
    else some ([], .string (.char c :: read))
  | .escape read, c =>
    if isShortEscape c then some ([], .string (.char c :: read))
    else if c == 'u' then some ([], .hex 4 (.char c :: read))
    else none
  | .hex left read, c =>
    if isHexDigit c then
      some ([], if left ≤ 1 then .string (.char c :: read) else .hex (left - 1) (.char c :: read))
    else none

def advanceSymbol : Scan → Symbol → Option (List Token × Scan)
  | scan, .char c => advance scan c
  | .string read, .stray b => some ([], .string (.stray b :: read))
  | _, .stray _ => none

/-- The token that the end of the text completes. -/
def finish : Scan → Option (List Token)
  | .gap => some []
  | .word read => (ofWord read.reverse).map ([·])
  | .number read => (ofNumber read.reverse).map ([·])
  | _ => none

def scanFrom : Scan → List Symbol → Option (List Token)
  | scan, [] => finish scan
  | scan, x :: rest => do
    let (tokens, scan) ← advanceSymbol scan x
    let more ← scanFrom scan rest
    some (tokens ++ more)

def scan (text : List Symbol) : Option (List Token) := scanFrom .gap text

end Token
end Rollout.Json
