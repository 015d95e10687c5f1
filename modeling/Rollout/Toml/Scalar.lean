import Rollout.Toml.Basic
import Rollout.Toml.Text
/-!
# Numbers, truth values and times of TOML

A scalar is a run of letters, digits and the marks of numbers and times. Integers fit in 64 bits
with a sign; a float must not be too large for its format, unless it is negative; times need fields
in range and days that the month has.
-/

namespace Rollout.Toml

open Json.Number (isDigit digitValue valueOf)

/-- Digits without the single underscores between them. -/
def digits? (isDigit : Char → Bool) : List Char → Option (List Char)
  | [] => none
  | [d] => if isDigit d then some [d] else none
  | d :: '_' :: rest => if isDigit d then (digits? isDigit rest).map (d :: ·) else none
  | d :: rest => if isDigit d then (digits? isDigit rest).map (d :: ·) else none

/-- Decimal digits of which the first is not zero, or a lone zero. -/
def wholeDigits? (cs : List Char) : Option (List Char) :=
  match digits? isDigit cs with
  | some ('0' :: _ :: _) => none
  | r => r

def splitSign : List Char → Bool × List Char
  | '-' :: rest => (true, rest)
  | '+' :: rest => (false, rest)
  | cs => (false, cs)

def signed (negative : Bool) (n : Nat) : Int := if negative then -(n : Int) else n

def inRange (n : Int) : Option Int :=
  if Int64.minValue.toInt ≤ n ∧ n ≤ Int64.maxValue.toInt then some n else none

/-- The value of digits in a base. -/
def inBase (base : Nat) (isDigit : Char → Bool) (cs : List Char) : Option Int := do
  let ds ← digits? isDigit cs
  inRange (ds.foldl (fun n d => base * n + Json.hexValue d) 0)

def integer? : List Char → Option Int
  | '0' :: 'x' :: rest => inBase 16 isHex rest
  | '0' :: 'o' :: rest => inBase 8 (fun c => '0' ≤ c && c ≤ '7') rest
  | '0' :: 'b' :: rest => inBase 2 (fun c => c == '0' || c == '1') rest
  | cs => do
    let (negative, rest) := splitSign cs
    let ds ← wholeDigits? rest
    inRange (signed negative (valueOf ds))

/-- Whether a decimal with this exponent rounds to infinity in 64 bits: it lies at or above the
middle between the largest number of the format and the next power of two. -/
def overflows (mantissa : List Char) (exponent : Int) : Bool :=
  let m := valueOf mantissa
  let bound := Nat.pow 2 1024 - Nat.pow 2 970
  if m = 0 then false
  else
    let size := exponent + (Nat.toDigits 10 m).length
    if size < 300 then false
    else if 400 < size then true
    else if 0 ≤ exponent then bound ≤ m * Nat.pow 10 exponent.toNat
    else bound * Nat.pow 10 (-exponent).toNat ≤ m

/-- The exponent of a float: a sign and digits, which may start with zeros. -/
def exponent? (cs : List Char) : Option Int := do
  let (negative, rest) := splitSign cs
  let ds ← digits? isDigit rest
  some (signed negative (valueOf ds))

def isExponentMark (c : Char) : Bool := c == 'e' || c == 'E'

/-- Whether the run is a float: digits with a fraction, an exponent or both, or a special value. -/
def isFloat (cs : List Char) : Bool :=
  let (negative, rest) := splitSign cs
  if rest = ['i', 'n', 'f'] || rest = ['n', 'a', 'n'] then true
  else
    let (mantissa, more) := (rest.takeWhile (!isExponentMark ·), rest.dropWhile (!isExponentMark ·))
    let (whole, fraction) := (mantissa.takeWhile (· != '.'), mantissa.dropWhile (· != '.'))
    let exponent :=
      match more with
      | [] => some 0
      | _ :: e => exponent? e
    let fractionDigits :=
      match fraction with
      | [] => if more.isEmpty then none else some []
      | _ :: f => digits? isDigit f
    match wholeDigits? whole, fractionDigits, exponent with
    | some w, some f, some e => negative || !overflows (w ++ f) (e - f.length)
    | _, _, _ => false

/-- A number of so many digits within bounds. -/
def fixed? (places low high : Nat) (cs : List Char) : Option Nat :=
  if cs.length = places && cs.all isDigit then
    let n := valueOf cs
    if low ≤ n ∧ n ≤ high then some n else none
  else none

def isLeapYear (y : Nat) : Bool := y % 4 = 0 && (y % 100 ≠ 0 || y % 400 = 0)

def daysIn (year month : Nat) : Nat :=
  if month = 2 then if isLeapYear year then 29 else 28
  else if month = 4 || month = 6 || month = 9 || month = 11 then 30
  else 31

/-- A date of ten characters. -/
def isDate (cs : List Char) : Bool :=
  cs.length = 10 && cs[4]? = some '-' && cs[7]? = some '-' &&
    match fixed? 4 0 9999 (cs.take 4), fixed? 2 1 12 ((cs.drop 5).take 2) with
    | some y, some m => (fixed? 2 1 (daysIn y m) (cs.drop 8)).isSome
    | _, _ => false

/-- A time of day with seconds, and a fraction of them if there is a point. -/
def isTime (cs : List Char) : Bool :=
  let (clock, fraction) := (cs.take 8, cs.drop 8)
  clock.length = 8 && clock[2]? = some ':' && clock[5]? = some ':' &&
    (fixed? 2 0 23 (clock.take 2)).isSome && (fixed? 2 0 59 ((clock.drop 3).take 2)).isSome &&
    (fixed? 2 0 60 (clock.drop 6)).isSome &&
    match fraction with
    | [] => true
    | c :: ds => c == '.' && !ds.isEmpty && ds.all isDigit

/-- An offset from universal time of six characters. -/
def isOffset (cs : List Char) : Bool :=
  cs.length = 6 && (cs[0]? = some '+' || cs[0]? = some '-') && cs[3]? = some ':' &&
    (fixed? 2 0 23 ((cs.drop 1).take 2)).isSome && (fixed? 2 0 59 (cs.drop 4)).isSome

/-- A time of day that an offset may follow. -/
def isTimeWithOffset (cs : List Char) : Bool :=
  isTime cs || (isTime cs.dropLast && (cs.getLast? = some 'Z' || cs.getLast? = some 'z')) ||
    (6 ≤ cs.length && isTime (cs.take (cs.length - 6)) && isOffset (cs.drop (cs.length - 6)))

def isDatetime (cs : List Char) : Bool :=
  isTime cs || isDate cs ||
    (isDate (cs.take 10) && (cs[10]? = some 'T' || cs[10]? = some 't') &&
      isTimeWithOffset (cs.drop 11))

def isScalarChar (c : Char) : Bool :=
  c.isAlphanum || c == '_' || c == '+' || c == '-' || c == '.' || c == ':'

def ofRun? (run : List Char) : Option Toml :=
  if run = ['t', 'r', 'u', 'e'] then some (.boolean true)
  else if run = ['f', 'a', 'l', 's', 'e'] then some (.boolean false)
  else if isDatetime run then some .datetime
  else if isFloat run then some .float
  else (integer? run).map .integer

/-- A scalar and the text after it. A date may be followed by a blank and a time of day. -/
def scalar? (cs : List Char) : Option (Toml × List Char) := do
  let run := cs.takeWhile isScalarChar
  let rest := cs.dropWhile isScalarChar
  let v ← ofRun? run
  match rest with
  | ' ' :: more =>
    if isDate run && isTimeWithOffset (more.takeWhile isScalarChar) then
      some (.datetime, more.dropWhile isScalarChar)
    else some (v, rest)
  | _ => some (v, rest)

end Rollout.Toml
