import Rollout.Json.Text
/-!
# Strings of TOML

Four kinds of strings: basic ones with escapes, literal ones without, and both also over several
lines. A line break in a long string is a single line feed however it is written, and one right
after the opening quotes does not count. Readers take the text after the opening quotes and return
the characters meant and the text after the closing quotes.
-/

namespace Rollout.Toml

def apostrophe : Char := Char.ofNat 0x27

def isBlank (c : Char) : Bool := c == ' ' || c == '\t'

/-- Characters that may stand in comments: no control but the tab. -/
def isPlain (c : Char) : Bool := c == '\t' || (0x20 ≤ c.toNat && c.toNat ≠ 0x7F)

def isHex (c : Char) : Bool := Json.Token.isHexDigit c

/-- The character with a code point of hexadecimal digits. -/
def codePoint? (digits : List Char) : Option Char :=
  if digits.all isHex then Utf8.scalar? (digits.foldl (fun n d => 16 * n + Json.hexValue d) 0)
  else none

def shortEscape? (c : Char) : Option Char :=
  if c == 'b' then some '\x08'
  else if c == 't' then some '\t'
  else if c == 'n' then some '\n'
  else if c == 'f' then some '\x0c'
  else if c == 'r' then some '\r'
  else if c == '"' then some '"'
  else if c == '\\' then some '\\'
  else none

/-- What is read after a backslash, and the text after it. -/
def escape? : List Char → Option (Char × List Char)
  | [] => none
  | c :: rest =>
    if c == 'u' || c == 'U' then
      let n := if c == 'u' then 4 else 8
      if n ≤ rest.length then (codePoint? (rest.take n)).map (·, rest.drop n) else none
    else (shortEscape? c).map (·, rest)

/-- The text after a line break that starts here. -/
def lineBreak? : List Char → Option (List Char)
  | '\n' :: rest => some rest
  | '\r' :: '\n' :: rest => some rest
  | _ => none

def skipBlanks (cs : List Char) : List Char := cs.dropWhile isBlank

/-- Passes over blanks and line breaks. -/
def skipLines : List Char → List Char
  | '\n' :: rest => skipLines rest
  | '\r' :: '\n' :: rest => skipLines rest
  | c :: rest => if isBlank c then skipLines rest else c :: rest
  | [] => []

abbrev Read := Option (List Char × List Char)

def Read.push (c : Char) (r : Read) : Read := r.map fun (cs, rest) => (c :: cs, rest)

/-- Characters of a basic string, each step with the fuel of one character. -/
def basicFrom : Nat → List Char → Read
  | 0, _ => none
  | _, [] => none
  | fuel + 1, c :: rest =>
    if c == '"' then some ([], rest)
    else if c == '\\' then
      match escape? rest with
      | some (e, rest) => Read.push e (basicFrom fuel rest)
      | none => none
    else if isPlain c then Read.push c (basicFrom fuel rest)
    else none

def literal : List Char → Read
  | [] => none
  | c :: rest =>
    if c == apostrophe then some ([], rest)
    else if isPlain c then Read.push c (literal rest)
    else none

/-- The end of a long string: three quotes close it, and up to two before them belong to it. -/
def closing? (quote : Char) (cs : List Char) : Read :=
  let n := min 5 (cs.takeWhile (· == quote)).length
  if 3 ≤ n then some (List.replicate (n - 3) quote, cs.drop n) else none

/-- Characters of a long string; a backslash counts only if the string has escapes. -/
def longFrom (quote : Char) (escapes : Bool) : Nat → List Char → Read
  | 0, _ => none
  | _, [] => none
  | fuel + 1, c :: rest =>
    match closing? quote (c :: rest) with
    | some r => some r
    | none =>
      match lineBreak? (c :: rest) with
      | some rest => Read.push '\n' (longFrom quote escapes fuel rest)
      | none =>
        if escapes && c == '\\' then
          match lineBreak? (skipBlanks rest) with
          | some rest => longFrom quote escapes fuel (skipLines rest)
          | none =>
            match escape? rest with
            | some (e, rest) => Read.push e (longFrom quote escapes fuel rest)
            | none => none
        else if isPlain c then Read.push c (longFrom quote escapes fuel rest)
        else none

def basic (cs : List Char) : Read := basicFrom (cs.length + 1) cs

def long (quote : Char) (escapes : Bool) (cs : List Char) : Read :=
  let cs := (lineBreak? cs).getD cs
  longFrom quote escapes (cs.length + 1) cs

/-- A string on one line, as a key may be. -/
def shortString? : List Char → Read
  | c :: rest => if c == '"' then basic rest else if c == apostrophe then literal rest else none
  | [] => none

/-- A string of any kind. -/
def string? (cs : List Char) : Read :=
  if cs.take 3 = ['"', '"', '"'] then long '"' true (cs.drop 3)
  else if cs.take 3 = [apostrophe, apostrophe, apostrophe] then long apostrophe false (cs.drop 3)
  else shortString? cs

end Rollout.Toml
