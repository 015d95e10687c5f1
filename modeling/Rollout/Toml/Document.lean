import Rollout.Toml.Scalar
/-!
# TOML documents

A document is read line by line. A header opens a table, in which the keys after it are entered; a
key may be dotted. Arrays may run over lines, inline tables may not. Arrays and inline tables are
nested less than eighty deep, and so are the parts of a key.
-/

namespace Rollout.Toml

/-- The limit on nesting. -/
def maxDepth : Nat := 80

/-- The text after a comment, if one starts here. -/
def skipComment : List Char → List Char
  | '#' :: rest => rest.dropWhile isPlain
  | cs => cs

/-- The text after the end of a line: blanks, perhaps a comment, and a line break or the end. -/
def lineEnd? (cs : List Char) : Option (List Char) :=
  match skipComment (skipBlanks cs) with
  | [] => some []
  | cs => lineBreak? cs

/-- Passes over blanks, line breaks and comments that end in one. -/
def skipGaps : Nat → List Char → List Char
  | 0, cs => cs
  | fuel + 1, cs =>
    let cs := skipBlanks cs
    match lineBreak? (skipComment cs) with
    | some rest => skipGaps fuel rest
    | none => cs

def gaps (cs : List Char) : List Char := skipGaps (cs.length + 1) cs

def isKeyChar (c : Char) : Bool := c.isAlphanum || c == '-' || c == '_'

def simpleKey? (cs : List Char) : Option (String × List Char) :=
  match shortString? cs with
  | some (key, rest) => some (String.ofList key, rest)
  | none =>
    let key := cs.takeWhile isKeyChar
    if key.isEmpty then none else some (String.ofList key, cs.dropWhile isKeyChar)

/-- A key of parts with dots between them. -/
def keyFrom : Nat → List Char → Option (List String × List Char)
  | 0, _ => none
  | fuel + 1, cs => do
    let (part, rest) ← simpleKey? (skipBlanks cs)
    match skipBlanks rest with
    | '.' :: rest => do
      let (parts, rest) ← keyFrom fuel rest
      some (part :: parts, rest)
    | rest => some ([part], rest)

def key? (cs : List Char) : Option (List String × List Char) := do
  let (parts, rest) ← keyFrom (cs.length + 1) cs
  if parts.length < maxDepth then some (parts, rest) else none

/-- Enters a value under a key of parts. -/
def enter (key : List String) (v : Toml) (es : Entries) : Option Entries := do
  addKey key.dropLast (← key.getLast?) v es

mutual

/-- A value and the text after it, inside so many arrays and inline tables. -/
def valueFrom : Nat → Nat → List Char → Option (Toml × List Char)
  | 0, _, _ => none
  | _, _, [] => none
  | fuel + 1, depth, c :: rest =>
    if c == '[' then
      if depth + 1 < maxDepth then elementsFrom fuel (depth + 1) [] (gaps rest) else none
    else if c == '\x7b' then
      if depth + 1 < maxDepth then
        match skipBlanks rest with
        | '\x7d' :: rest => some (.inline [], rest)
        | rest => pairsFrom fuel (depth + 1) [] rest
      else none
    else if c == '"' || c == apostrophe then
      (string? (c :: rest)).map fun (s, rest) => (.string (String.ofList s), rest)
    else scalar? (c :: rest)

/-- The elements of an array after those before. -/
def elementsFrom : Nat → Nat → List Toml → List Char → Option (Toml × List Char)
  | 0, _, _, _ => none
  | _, _, before, ']' :: rest => some (.array before.reverse, rest)
  | fuel + 1, depth, before, cs => do
    let (v, rest) ← valueFrom fuel depth cs
    match gaps rest with
    | ',' :: rest => elementsFrom fuel depth (v :: before) (gaps rest)
    | ']' :: rest => some (.array (v :: before).reverse, rest)
    | _ => none

/-- The pairs of an inline table after those entered. -/
def pairsFrom : Nat → Nat → Entries → List Char → Option (Toml × List Char)
  | 0, _, _, _ => none
  | fuel + 1, depth, es, cs => do
    let (key, rest) ← key? cs
    match rest with
    | '=' :: rest => do
      let (v, rest) ← valueFrom fuel depth (skipBlanks rest)
      let es ← enter key v es
      match skipBlanks rest with
      | ',' :: rest => pairsFrom fuel depth es rest
      | '\x7d' :: rest => some (.inline es, rest)
      | _ => none
    | _ => none

end

def value? (cs : List Char) : Option (Toml × List Char) := valueFrom (2 * cs.length + 2) 0 cs

/-- What is known of a document: its entries, and the path of the table that is open. -/
structure Draft where
  entries : Entries
  current : List String

namespace Draft

def empty : Draft := ⟨[], []⟩

/-- Enters a key in the open table. -/
def enter (d : Draft) (key : List String) (v : Toml) : Option Draft := do
  let es ← modifyAt false (fun _ es => Toml.enter key v es) d.current .header d.entries
  some { d with entries := es }

/-- Opens the table of a header, or one more element of an array of tables. -/
def header (d : Draft) (path : List String) (element : Bool) : Option Draft := do
  let key ← path.getLast?
  let change := if element then openElement key else openTable key
  let es ← modifyAt false (fun _ es => change es) path.dropLast .header d.entries
  some ⟨es, path⟩

end Draft

/-- A header after its first bracket: the path, whether it opens an element, and the text after. -/
def header? (cs : List Char) : Option (List String × Bool × List Char) :=
  match cs with
  | '[' :: rest => do
    let (path, rest) ← key? rest
    match rest with
    | ']' :: ']' :: rest => some (path, true, rest)
    | _ => none
  | _ => do
    let (path, rest) ← key? cs
    match rest with
    | ']' :: rest => some (path, false, rest)
    | _ => none

/-- The key and value of a line. -/
def pair? (cs : List Char) : Option (List String × Toml × List Char) := do
  let (key, rest) ← key? cs
  match rest with
  | '=' :: rest => do
    let (v, rest) ← value? (skipBlanks rest)
    some (key, v, rest)
  | _ => none

def linesFrom : Nat → Draft → List Char → Option Draft
  | 0, _, _ => none
  | fuel + 1, d, cs =>
    match skipBlanks cs with
    | [] => some d
    | '[' :: rest => do
      let (path, element, rest) ← header? rest
      let d ← d.header path element
      linesFrom fuel d (← lineEnd? rest)
    | cs =>
      match lineEnd? cs with
      | some rest => linesFrom fuel d rest
      | none => do
        let (key, v, rest) ← pair? cs
        let d ← d.enter key v
        linesFrom fuel d (← lineEnd? rest)

/-- A mark of the byte order at the start does not count. -/
def dropMark : List Char → List Char
  | c :: rest => if c.toNat = 0xFEFF then rest else c :: rest
  | [] => []

/-- The entries of a document. -/
def parse? (text : String) : Option Entries :=
  let cs := dropMark text.toList
  (linesFrom (cs.length + 1) .empty cs).map Draft.entries

end Rollout.Toml
