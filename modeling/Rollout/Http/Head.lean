import Rollout.Http.Status
import Rollout.Text.Utf8
/-!
# Heads of responses

A status line and headers up to an empty line. A line ends with a line feed, before which a
carriage return may stand. Readers return what they have read and the bytes after it.
-/

namespace Rollout.Http

def cr : UInt8 := 13

def lf : UInt8 := 10

def isBlank (b : UInt8) : Bool := b = 9 || b = 32

def isDigit (b : UInt8) : Bool := 48 ≤ b && b ≤ 57

/-- The value of digits in decimal. -/
def decimal (digits : Bytes) : Nat := digits.foldl (fun n b => 10 * n + (b.toNat - 48)) 0

def isLetter (b : UInt8) : Bool := (65 ≤ b && b ≤ 90) || (97 ≤ b && b ≤ 122)

def lower (b : UInt8) : UInt8 := if 65 ≤ b && b ≤ 90 then b + 32 else b

/-- The bytes of the name of a header. -/
def isNameByte (b : UInt8) : Bool :=
  isLetter b || isDigit b || b = 39 || b = 96 || b ∈ Utf8.encode "!#$%&*+-.^_|~"

/-- The bytes of the value of a header, and of the words after a status code: no control but the
tab. -/
def isValueByte (b : UInt8) : Bool := b = 9 || (32 ≤ b && b ≠ 127)

/-- The bytes after the end of a line. -/
def lineEnd? : Bytes → Option Bytes
  | [] => none
  | b :: rest =>
    if b = lf then some rest
    else
      match rest with
      | c :: rest => if b = cr && c = lf then some rest else none
      | [] => none

structure Header where
  name : Bytes
  value : Bytes
  deriving DecidableEq, Repr

/-- Without blanks at both ends. -/
def trim (bytes : Bytes) : Bytes :=
  ((bytes.dropWhile isBlank).reverse.dropWhile isBlank).reverse

/-- A header on a line of its own; its name is kept in lower case. -/
def header? (bytes : Bytes) : Option (Header × Bytes) :=
  let name := bytes.takeWhile isNameByte
  match bytes.drop name.length with
  | 58 :: rest =>
    let value := rest.takeWhile isValueByte
    if name = [] then none
    else (lineEnd? (rest.drop value.length)).map (⟨name.map lower, trim value⟩, ·)
  | _ => none

/-- At most so many headers, and the empty line after them. -/
def headers? (limit : Nat) (bytes : Bytes) : Option (List Header × Bytes) :=
  match lineEnd? bytes with
  | some rest => some ([], rest)
  | none =>
    match limit with
    | 0 => none
    | limit + 1 => do
      let (h, rest) ← header? bytes
      let (hs, rest) ← headers? limit rest
      some (h :: hs, rest)

def maxHeaders : Nat := 100

inductive Version where
  | http10
  | http11
  deriving DecidableEq, Repr

structure Head where
  version : Version
  status : Status
  headers : List Header
  deriving DecidableEq, Repr

namespace Head

/-- Passes over empty lines. -/
def skipEmptyLines : Bytes → Bytes
  | 10 :: rest => skipEmptyLines rest
  | 13 :: 10 :: rest => skipEmptyLines rest
  | bytes => bytes

def version? (bytes : Bytes) : Option (Version × Bytes) :=
  let lead := bytes.take 9
  if lead = Utf8.encode "HTTP/1.1 " then some (.http11, bytes.drop 9)
  else if lead = Utf8.encode "HTTP/1.0 " then some (.http10, bytes.drop 9)
  else none

/-- The end of the status line, and perhaps words before it. -/
def reason? (bytes : Bytes) : Option Bytes :=
  match bytes with
  | 32 :: rest => lineEnd? (rest.dropWhile isValueByte)
  | bytes => lineEnd? bytes

def status? (bytes : Bytes) : Option (Status × Bytes) :=
  let digits := bytes.take 3
  if digits.length = 3 && digits.all isDigit && 100 ≤ decimal digits then
    (reason? (bytes.drop 3)).map (⟨decimal digits⟩, ·)
  else none

def read? (bytes : Bytes) : Option (Head × Bytes) := do
  let (version, rest) ← version? (skipEmptyLines bytes)
  let (status, rest) ← status? rest
  let (headers, rest) ← headers? maxHeaders rest
  some (⟨version, status, headers⟩, rest)

/-- The first head that does not merely announce another one; every head is a step of the fuel. -/
def readFinal? : Nat → Bytes → Option (Head × Bytes)
  | 0, _ => none
  | fuel + 1, bytes =>
    match read? bytes with
    | some (head, rest) =>
      if head.status.isInterim then readFinal? fuel rest else some (head, rest)
    | none => none

/-- The values of the headers with a name, in order. -/
def values (h : Head) (name : String) : List Bytes :=
  (h.headers.filter (·.name = Utf8.encode name)).map (·.value)

end Head
end Rollout.Http
