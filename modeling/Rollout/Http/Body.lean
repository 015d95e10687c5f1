import Rollout.Http.Head
/-!
# Bodies of responses

How long a body is follows from the head: there is none, or it comes in chunks, or it has a length,
or it lasts until the connection is closed. A head that gives several lengths contradicts itself
unless all are the same.
-/

namespace Rollout.Http

inductive Framing where
  | empty
  | chunked
  | sized (length : Nat)
  | untilClose
  deriving DecidableEq, Repr

namespace Framing

/-- The bytes of a value that lists things in plain text. -/
def isPlainByte (b : UInt8) : Bool := b = 9 || (32 ≤ b && b < 127)

/-- The items of a list with commas, without the blanks around them. -/
def items (value : Bytes) : List Bytes := (value.splitOn 44).map trim

/-- Whether the last coding of a transfer is the one by chunks. -/
def endsChunked (values : List Bytes) : Bool :=
  match values.getLast? with
  | none => false
  | some value =>
    value.all isPlainByte && ((items value).getLast?.map (·.map lower)) = some (Utf8.encode "chunked")

def maxLength : Nat := UInt64.size - 3

/-- The length that digits spell. -/
def length? (item : Bytes) : Option Nat :=
  if item ≠ [] && item.all isDigit && decimal item ≤ maxLength then some (decimal item) else none

/-- The one length that all the values give. -/
def agreed? (values : List Bytes) : Option Nat :=
  match (values.flatMap items).mapM length? with
  | some (n :: more) => if more.all (· = n) then some n else none
  | _ => none

/-- The framing that a head asks for, unless it contradicts itself. -/
def ofHead? (h : Head) : Option Framing :=
  if h.status.isBodiless then some .empty
  else
    let codings := h.values "transfer-encoding"
    let lengths := h.values "content-length"
    if codings ≠ [] then
      if h.version = .http10 then none
      else if endsChunked codings then some .chunked
      else some .untilClose
    else if lengths ≠ [] then (agreed? lengths).map .sized
    else some .untilClose

end Framing

namespace Chunk

def hexValue? (b : UInt8) : Option Nat :=
  if isDigit b then some (b.toNat - 48)
  else if 97 ≤ b && b ≤ 102 then some (b.toNat - 87)
  else if 65 ≤ b && b ≤ 70 then some (b.toNat - 55)
  else none

/-- The bytes after a carriage return and a line feed. -/
def break? : Bytes → Option Bytes
  | 13 :: 10 :: rest => some rest
  | _ => none

/-- A size in hexadecimal digits, to the end of its line; an extension may stand after it. -/
def size? (bytes : Bytes) : Option (Nat × Bytes) :=
  let digits := bytes.takeWhile fun b => (hexValue? b).isSome
  let rest := (bytes.drop digits.length).dropWhile isBlank
  let rest := match rest with
    | 59 :: more => more.dropWhile fun b => b ≠ cr && b ≠ lf
    | rest => rest
  if digits = [] then none
  else
    (break? rest).map (digits.foldl (fun n b => 16 * n + (hexValue? b).getD 0) 0, ·)

/-- The number of lines before an empty one. -/
def lines? : Nat → Bytes → Option Nat
  | 0, _ => none
  | fuel + 1, bytes =>
    match break? bytes with
    | some _ => some 0
    | none => do
      let rest ← break? (bytes.dropWhile (· ≠ cr))
      let n ← lines? fuel rest
      some (n + 1)

/-- Whether the body ends here: after headers, if any, and an empty line. -/
def isEnd (bytes : Bytes) : Bool :=
  match lines? (bytes.length + 1) bytes with
  | none => false
  | some 0 => true
  | some n => n < maxHeaders && (headers? n bytes).isSome

/-- The contents of the chunks up to an empty one; every chunk is a step of the fuel. -/
def readFrom : Nat → Bytes → Option Bytes
  | 0, _ => none
  | fuel + 1, bytes =>
    match size? bytes with
    | none => none
    | some (0, rest) => if isEnd rest then some [] else none
    | some (n, rest) =>
      if rest.length < n then none
      else
        match break? (rest.drop n) with
        | some more => (readFrom fuel more).map (rest.take n ++ ·)
        | none => none

def read? (bytes : Bytes) : Option Bytes := readFrom (bytes.length + 1) bytes

end Chunk

/-- The body at the start of the bytes that came before the connection was closed. -/
def Framing.read? (f : Framing) (bytes : Bytes) : Option Bytes :=
  match f with
  | .empty => some []
  | .chunked => Chunk.read? bytes
  | .sized n => if n ≤ bytes.length then some (bytes.take n) else none
  | .untilClose => some bytes

end Rollout.Http
