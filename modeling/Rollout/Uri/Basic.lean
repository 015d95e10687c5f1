import Rollout.Uri.Authority
/-!
# URIs

A URI is a scheme with an authority and a path, or an authority alone, or a path alone, or a star.
A query may follow a path, and a fragment is dropped unread. Characters that ought to be written
with percent signs are let through where they can do no harm.
-/

namespace Rollout

/-- The path of a URI as it is written, perhaps empty, and the query after it. -/
structure Resolved where
  path : List Char
  query : Option (List Char)
  deriving DecidableEq, Repr

namespace Resolved

def isPathChar (c : Char) : Bool :=
  let n := c.toNat
  n = 0x21 || n = 0x22 || (0x24 ≤ n && n ≤ 0x3B) || n = 0x3D || (0x40 ≤ n && n ≤ 0x5F) ||
    (0x61 ≤ n && n ≤ 0x7E) || 0x80 ≤ n

def isQueryChar (c : Char) : Bool :=
  let n := c.toNat
  n = 0x21 || (0x24 ≤ n && n ≤ 0x3B) || n = 0x3D || (0x3F ≤ n && n ≤ 0x7E) || 0x80 ≤ n

/-- Whether the text is over, but for a fragment. -/
def isOver : List Char → Bool
  | [] => true
  | c :: _ => c = '#'

def parse? (cs : List Char) : Option Resolved :=
  let path := cs.takeWhile isPathChar
  match cs.drop path.length with
  | '?' :: rest =>
    let query := rest.takeWhile isQueryChar
    if isOver (rest.drop query.length) then some ⟨path, some query⟩ else none
  | rest => if isOver rest then some ⟨path, none⟩ else none

/-- The path and the query as a request writes them; an empty path is the root. -/
def text (r : Resolved) : List Char :=
  (if r.path = [] then ['/'] else r.path) ++
    match r.query with
    | none => []
    | some q => '?' :: q

end Resolved

inductive Uri where
  | full (scheme : List Char) (authority : Authority) (target : Resolved)
  | bare (authority : Authority)
  | path (target : Resolved)
  | star
  deriving DecidableEq, Repr

namespace Uri

/-- A text as a URI has at most this many bytes. -/
def maxLength : Nat := 65534

def maxSchemeLength : Nat := 64

def isSchemeChar (c : Char) : Bool :=
  c.isAlphanum || c = '+' || c = '-' || c = '.' || c = '~'

/-- A text that begins with this one, in letters of either case, without it. -/
def dropLead? (lead cs : List Char) : Option (List Char) :=
  if (cs.take lead.length).map Char.toLower = lead then some (cs.drop lead.length) else none

/-- What a text says of its scheme. -/
inductive Lead where
  | none
  | tooLong
  | scheme (name rest : List Char)

/-- The scheme before a colon and two slashes. The two common ones are written in any case and
kept in lower case. -/
def lead (cs : List Char) : Lead :=
  match dropLead? "http://".toList cs with
  | some rest => .scheme "http".toList rest
  | none =>
    match dropLead? "https://".toList cs with
    | some rest => .scheme "https".toList rest
    | none =>
      let name := cs.takeWhile isSchemeChar
      match cs.drop name.length with
      | ':' :: '/' :: '/' :: rest =>
        if maxSchemeLength < name.length then .tooLong else .scheme name rest
      | _ => .none

def parseFull? (cs : List Char) : Option Uri :=
  match lead cs with
  | .tooLong => none
  | .none =>
    match Authority.read? cs with
    | some (a, []) => some (.bare a)
    | _ => none
  | .scheme name rest =>
    match Authority.read? rest with
    | some (a, rest) =>
      if a.chars = [] then none else (Resolved.parse? rest).map (.full name a)
    | none => none

def parseChars? (cs : List Char) : Option Uri :=
  match cs with
  | [] => none
  | ['*'] => some .star
  | '/' :: _ => (Resolved.parse? cs).map .path
  | cs => parseFull? cs

def parse? (text : String) : Option Uri :=
  if text.utf8ByteSize ≤ maxLength then parseChars? text.toList else none

/-- The URI as a request names it, without its fragment. -/
def text : Uri → List Char
  | .full scheme a target => scheme ++ "://".toList ++ a.chars ++ target.text
  | .bare a => a.chars
  | .path target => target.text
  | .star => ['*']

end Uri
end Rollout
