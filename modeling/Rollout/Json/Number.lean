/-!
# Number lexemes

The shape of a JSON number, and the naturals among them: plain digits without a leading zero.
A sign, a fraction or an exponent makes a number that counts nothing here, even when its value is
whole.
-/

namespace Rollout.Json.Number

def isDigit (c : Char) : Bool := '0' ≤ c && c ≤ '9'

def digitValue (c : Char) : Nat := c.toNat - '0'.toNat

/-- Nothing, or an exponent with at least one digit. -/
def exponent : List Char → Bool
  | [] => true
  | e :: rest =>
    (e == 'e' || e == 'E') &&
      match rest with
      | sign :: d :: more =>
        if sign == '+' || sign == '-' then isDigit d && more.all isDigit
        else isDigit sign && (d :: more).all isDigit
      | [d] => isDigit d
      | [] => false

/-- Nothing, or a point with at least one digit after it, and then an exponent. -/
def fraction : List Char → Bool
  | '.' :: d :: rest => isDigit d && exponent (rest.dropWhile isDigit)
  | ['.'] => false
  | rest => exponent rest

/-- The digits before the point: a lone zero, or digits of which the first is not zero. -/
def whole : List Char → Bool
  | '0' :: rest => fraction rest
  | d :: rest => isDigit d && fraction (rest.dropWhile isDigit)
  | [] => false

def wellFormed : List Char → Bool
  | '-' :: rest => whole rest
  | cs => whole cs

def valueOf (digits : List Char) : Nat :=
  digits.foldl (fun n d => 10 * n + digitValue d) 0

/-- The natural that a lexeme spells. -/
def natural? (lexeme : List Char) : Option Nat :=
  if wellFormed lexeme && lexeme.all isDigit then some (valueOf lexeme) else none

/-- The decimal spelling of a natural. -/
def spell (n : Nat) : List Char := Nat.toDigits 10 n

end Rollout.Json.Number
