/-!
# TOML values

A table is open while the document may still add to it. Whether a header or a dotted key may do so
depends on how the table came about. Floats and times are not told apart by value: nothing here
reads them.
-/

namespace Rollout

/-- How an open table came about. -/
inductive Toml.Origin where
  | header
  | implied
  | dotted
  deriving DecidableEq, Repr

inductive Toml where
  | string (s : String)
  | integer (n : Int)
  | float
  | boolean (b : Bool)
  | datetime
  | array (elements : List Toml)
  | inline (entries : List (String × Toml))
  | table (origin : Toml.Origin) (entries : List (String × Toml))
  | tables (elements : List (List (String × Toml)))
  deriving Repr, Inhabited

namespace Toml

abbrev Entries := List (String × Toml)

/-- Puts a value in the place of the one with this key. -/
def replace (key : String) (v : Toml) : Entries → Entries
  | [] => []
  | (k, w) :: rest => if k = key then (k, v) :: rest else (k, w) :: replace key v rest

/-- Changes the table at the end of a path, making the tables on the way that are missing. A
dotted key makes dotted tables and does not enter tables with a header of their own. -/
def modifyAt (dotted : Bool) (change : Origin → Entries → Option Entries) :
    List String → Origin → Entries → Option Entries
  | [], origin, es => change origin es
  | key :: path, _, es =>
    match es.lookup key with
    | none => do
      let origin := if dotted then Origin.dotted else Origin.implied
      let inner ← modifyAt dotted change path origin []
      some (es ++ [(key, .table origin inner)])
    | some (.table origin inner) =>
      if dotted && origin = .header then none
      else do
        let inner ← modifyAt dotted change path origin inner
        some (replace key (.table origin inner) es)
    | some (.tables elements) =>
      match elements.getLast? with
      | none => none
      | some last => do
        let last ← modifyAt dotted change path .header last
        some (replace key (.tables (elements.dropLast ++ [last])) es)
    | some _ => none

/-- Adds a key to a table, which a dotted key does only in a table that dotted keys made. -/
def addKey (path : List String) (key : String) (v : Toml) (es : Entries) : Option Entries :=
  modifyAt true (fun origin inner =>
    if !path.isEmpty && origin ≠ .dotted then none
    else if (inner.lookup key).isSome then none
    else some (inner ++ [(key, v)])) path .header es

/-- Opens the table of a header under its parent. -/
def openTable (key : String) (es : Entries) : Option Entries :=
  match es.lookup key with
  | none => some (es ++ [(key, .table .header [])])
  | some (.table .implied inner) => some (replace key (.table .header inner) es)
  | some _ => none

/-- Opens one more element of an array of tables under its parent. -/
def openElement (key : String) (es : Entries) : Option Entries :=
  match es.lookup key with
  | none => some (es ++ [(key, .tables [[]])])
  | some (.tables elements) => some (replace key (.tables (elements ++ [[]])) es)
  | some _ => none

end Toml
end Rollout
