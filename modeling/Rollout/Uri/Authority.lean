import Rollout.Json.Number
/-!
# Authorities

The part of a URI that tells whom to ask: a user before an at sign, a host, and a port after a
colon. The host is a name or a bracketed address. Only what stands after the last at sign has to
be the host and its port, so a colon or a percent sign before it counts for nothing.
-/

namespace Rollout

namespace Uri

/-- The text after the last occurrence of a character. -/
def afterLast? (mark : Char) : List Char → Option (List Char)
  | [] => none
  | c :: rest =>
    match afterLast? mark rest with
    | some tail => some tail
    | none => if c = mark then some rest else none

/-- The number of a port: digits, perhaps after a plus sign, with a value of 16 bits. -/
def port? (cs : List Char) : Option UInt16 :=
  let digits := match cs with
    | '+' :: rest => rest
    | cs => cs
  if digits ≠ [] && digits.all Json.Number.isDigit && Json.Number.valueOf digits < 65536 then
    some (UInt16.ofNat (Json.Number.valueOf digits))
  else none

theorem afterLast?_of_not_mem {mark : Char} {cs : List Char} (h : mark ∉ cs) :
    afterLast? mark cs = none := by
  induction cs with
  | nil => rfl
  | cons c rest ih =>
    simp only [List.mem_cons, not_or] at h
    simp [afterLast?, ih h.2, Ne.symm h.1]

theorem afterLast?_append {mark : Char} {cs tail : List Char} (h : mark ∉ tail) :
    afterLast? mark (cs ++ mark :: tail) = some tail := by
  induction cs with
  | nil => simp [afterLast?, afterLast?_of_not_mem h]
  | cons c rest ih => simp [afterLast?, ih]

end Uri

structure Authority where
  chars : List Char
  deriving DecidableEq, Repr

namespace Authority

/-- Whether the brackets of an address have been seen. -/
inductive Bracket where
  | absent
  | opened
  | closed
  deriving DecidableEq, Repr

/-- What has been seen of an authority: the colons and whether there was a percent sign since it
began, or since the last at sign or closing bracket. -/
structure Scan where
  colons : Nat
  percent : Bool
  bracket : Bracket
  deriving DecidableEq, Repr

namespace Scan

def start : Scan := ⟨0, false, .absent⟩

/-- The characters with no meaning of their own. -/
def isPlain (c : Char) : Bool :=
  c.isAlphanum || c ∈ "!$&()*+,-.;=_~".toList || c = Char.ofNat 0x27

def step (s : Scan) (c : Char) : Option Scan :=
  if c = ':' then if s.colons < 8 then some { s with colons := s.colons + 1 } else none
  else if c = '[' then
    if s.percent || s.bracket ≠ .absent then none else some { s with bracket := .opened }
  else if c = ']' then
    if s.bracket = .opened then some ⟨0, false, .closed⟩ else none
  else if c = '@' then some ⟨0, false, s.bracket⟩
  else if c = '%' then some { s with percent := true }
  else if isPlain c then some s
  else none

/-- At most one colon is left for a port, no percent sign is in the host, and no bracket is open. -/
def accepts (s : Scan) : Bool := s.colons ≤ 1 && !s.percent && s.bracket ≠ .opened

end Scan

def isValid (cs : List Char) : Bool :=
  cs.getLast? ≠ some '@' && ((cs.foldlM Scan.step Scan.start).any Scan.accepts)

/-- What ends an authority: the start of a path, of a query or of a fragment. -/
def isEnd (c : Char) : Bool := c = '/' || c = '?' || c = '#'

/-- The authority at the start of a text, perhaps an empty one, and the text after it. -/
def read? (cs : List Char) : Option (Authority × List Char) :=
  let chars := cs.takeWhile (!isEnd ·)
  if isValid chars then some (⟨chars⟩, cs.drop chars.length) else none

/-- The host and its port, without the user. -/
def location (a : Authority) : List Char := (Uri.afterLast? '@' a.chars).getD a.chars

def host (a : Authority) : List Char :=
  match a.location with
  | '[' :: rest => '[' :: rest.takeWhile (· ≠ ']') ++ [']']
  | cs => cs.takeWhile (· ≠ ':')

/-- The port, if what stands after the last colon is one. -/
def port? (a : Authority) : Option UInt16 := (Uri.afterLast? ':' a.chars).bind Uri.port?

end Authority
end Rollout
