import Rollout.Json.Number
/-!
# Names of servers

The name that a certificate has to be for: a name of labels with points between them, or an
address of four numbers. A name may end with a point, and its last label is not all digits.
-/

namespace Rollout.ServerName

def isLabelChar (c : Char) : Bool := c.isAlphanum || c = '_' || c = '-'

/-- A label has at most 63 characters and a hyphen at neither end. -/
def isLabel (cs : List Char) : Bool :=
  cs ≠ [] && cs.length ≤ 63 && cs.all isLabelChar && cs.head? ≠ some '-' && cs.getLast? ≠ some '-'

/-- The labels, without the empty one after a point at the end. -/
def labels (cs : List Char) : List (List Char) :=
  let parts := cs.splitOn '.'
  if parts.getLast? = some [] && parts.length ≠ 1 then parts.dropLast else parts

def isDomain (cs : List Char) : Bool :=
  let parts := labels cs
  cs.length ≤ 253 && parts.all isLabel && !(parts.getLast?.getD []).all Json.Number.isDigit

/-- A number of an address: one to three digits, without a leading zero, below 256. -/
def isOctet (cs : List Char) : Bool :=
  cs ≠ [] && cs.length ≤ 3 && cs.all Json.Number.isDigit && (cs.head? ≠ some '0' || cs.length = 1) &&
    Json.Number.valueOf cs < 256

def isAddress (cs : List Char) : Bool :=
  let parts := cs.splitOn '.'
  parts.length = 4 && parts.all isOctet

def isValid (host : String) : Bool := isDomain host.toList || isAddress host.toList

end Rollout.ServerName
