/-!
# Text in bytes

Stored rows and response bodies are bytes. They are read as a list of symbols: a character for
each well-formed UTF-8 sequence, and a stray byte wherever no such sequence starts. No byte is
lost, and the encoding of a character is read back as that character.
-/

namespace Rollout

abbrev Bytes := List UInt8

/-- A unit of a byte text: a character, or a byte that starts no well-formed sequence. -/
inductive Symbol where
  | char (c : Char)
  | stray (b : UInt8)
  deriving DecidableEq, Repr

namespace Utf8

/-- The character with this scalar value; surrogates and numbers past the last plane have none. -/
def scalar? (n : Nat) : Option Char :=
  if h : n.isValidChar then some (Char.ofNatAux n h) else none

/-- The low six bits of a continuation byte. -/
def tail? (b : UInt8) : Option Nat :=
  if 0x80 ≤ b.toNat ∧ b.toNat < 0xC0 then some (b.toNat - 0x80) else none

/-- The scalar value spelled by a lead byte and the bytes after it, and how many bytes follow the
lead byte. Overlong spellings are refused. -/
def spelled? (lead : UInt8) (rest : Bytes) : Option (Nat × Nat) :=
  let a := lead.toNat
  if a < 0x80 then some (a, 0)
  else if a < 0xC2 then none
  else if a < 0xE0 then
    match rest with
    | b :: _ => do
      let b ← tail? b
      some ((a - 0xC0) * 64 + b, 1)
    | _ => none
  else if a < 0xF0 then
    match rest with
    | b :: c :: _ => do
      let b ← tail? b
      let c ← tail? c
      let n := ((a - 0xE0) * 64 + b) * 64 + c
      if n < 0x800 then none else some (n, 2)
    | _ => none
  else if a < 0xF5 then
    match rest with
    | b :: c :: d :: _ => do
      let b ← tail? b
      let c ← tail? c
      let d ← tail? d
      let n := (((a - 0xF0) * 64 + b) * 64 + c) * 64 + d
      if n < 0x10000 then none else some (n, 3)
    | _ => none
  else none

/-- The character that starts here, with the number of bytes after its lead byte. -/
def read? (lead : UInt8) (rest : Bytes) : Option (Char × Nat) := do
  let (n, more) ← spelled? lead rest
  let c ← scalar? n
  some (c, more)

/-- Reads symbols after passing over `skip` bytes. -/
def decodeFrom : Nat → Bytes → List Symbol
  | _, [] => []
  | skip + 1, _ :: rest => decodeFrom skip rest
  | 0, b :: rest =>
    match read? b rest with
    | some (c, more) => .char c :: decodeFrom more rest
    | none => .stray b :: decodeFrom 0 rest

def decode (bytes : Bytes) : List Symbol := decodeFrom 0 bytes

def encodeChars (cs : List Char) : Bytes := cs.flatMap String.utf8EncodeChar

def encode (s : String) : Bytes := encodeChars s.toList

/-- The characters of a symbol text without stray bytes. -/
def chars? : List Symbol → Option (List Char)
  | [] => some []
  | .char c :: rest => (chars? rest).map (c :: ·)
  | .stray _ :: _ => none

/-- The string that these bytes spell, if they are well-formed throughout. -/
def string? (bytes : Bytes) : Option String := (chars? (decode bytes)).map String.ofList

theorem decodeFrom_append (skipped rest : Bytes) :
    decodeFrom skipped.length (skipped ++ rest) = decodeFrom 0 rest := by
  induction skipped with
  | nil => rfl
  | cons b bs ih => simpa [decodeFrom] using ih

theorem chars?_map (cs : List Char) : chars? (cs.map .char) = some cs := by
  induction cs with
  | nil => rfl
  | cons c cs ih => simp [chars?, ih]

end Utf8
end Rollout
