import Rollout.Text.Utf8
/-!
# Sections of credentials

A file of credentials holds sections between a line that begins one and a line that ends it. Each
has a label, which tells what the section is, and content in base64. What stands outside of
sections is passed over, and so is a section with a label that is not known.
-/

namespace Rollout.Pem

inductive Kind where
  | certificate
  | privateKey
  | rsaPrivateKey
  | ecPrivateKey
  | publicKey
  | revocationList
  | signingRequest
  | helloConfig
  deriving DecidableEq, Repr

namespace Kind

def labels : List (String × Kind) :=
  [("CERTIFICATE", .certificate), ("PRIVATE KEY", .privateKey),
   ("RSA PRIVATE KEY", .rsaPrivateKey), ("EC PRIVATE KEY", .ecPrivateKey),
   ("PUBLIC KEY", .publicKey), ("X509 CRL", .revocationList),
   ("CERTIFICATE REQUEST", .signingRequest), ("ECHCONFIG", .helloConfig)]

def ofLabel? (label : Bytes) : Option Kind :=
  (labels.find? fun (name, _) => Utf8.encode name = label).map (·.2)

def isPrivateKey (k : Kind) : Bool := k = .privateKey || k = .rsaPrivateKey || k = .ecPrivateKey

end Kind

/-- What is found in a file, in order; nothing comes after a malformed section. -/
inductive Item where
  | known (kind : Kind)
  | malformed
  deriving DecidableEq, Repr

def isDigitByte (b : UInt8) : Bool :=
  (65 ≤ b && b ≤ 90) || (97 ≤ b && b ≤ 122) || (48 ≤ b && b ≤ 57) || b = 43 || b = 47

def isBlankByte (b : UInt8) : Bool := b = 9 || b = 10 || b = 13 || b = 32

/-- Whether bytes are spelled here: digits, then perhaps padding to a multiple of four. Blanks do
not count. -/
def isBase64 (content : Bytes) : Bool :=
  let content := content.filter (!isBlankByte ·)
  let digits := content.takeWhile isDigitByte
  let padding := content.drop digits.length
  padding.all (· = 61) && digits.length % 4 ≠ 1 &&
    (padding = [] || (padding.length ≤ 2 && content.length % 4 = 0))

/-- The lines of a file, each without the line feed or carriage return that ends it. -/
def lines : Bytes → List Bytes
  | [] => [[]]
  | b :: rest =>
    if b = 10 || b = 13 then [] :: lines rest
    else
      match lines rest with
      | line :: more => (b :: line) :: more
      | [] => [[b]]

def beginMark : Bytes := Utf8.encode "-----BEGIN "

def endMark (label : Bytes) : Bytes := Utf8.encode "-----END " ++ label ++ Utf8.encode "-----"

/-- The label in a line after the mark that begins a section: what stands before the dashes at its
end, of which there are five. Spaces among the dashes do not count. -/
def label? (rest : Bytes) : Option Bytes :=
  let tail := rest.reverse.takeWhile fun b => b = 45 || b = 32
  let dashed := (tail.reverse.dropWhile (· ≠ 45)).length
  if tail.count 45 = 5 then some (rest.take (rest.length - dashed)) else none

/-- A section whose end has not come yet. -/
structure Opened where
  label : Bytes
  content : Bytes

/-- The items from a line on. A section that begins within another one takes over its content. -/
def itemsFrom : Option Opened → List Bytes → List Item
  | none, [] => []
  | some _, [] => [.malformed]
  | opened, line :: rest =>
    if beginMark.isPrefixOf line then
      match label? (line.drop beginMark.length) with
      | none => [.malformed]
      | some label => itemsFrom (some ⟨label, (opened.map (·.content)).getD []⟩) rest
    else
      match opened with
      | none => itemsFrom none rest
      | some s =>
        if (endMark s.label).isPrefixOf line then
          match Kind.ofLabel? s.label with
          | none => itemsFrom none rest
          | some kind =>
            if isBase64 s.content then .known kind :: itemsFrom none rest else [.malformed]
        else itemsFrom (some ⟨s.label, s.content ++ line⟩) rest

def items (file : Bytes) : List Item := itemsFrom none (lines file)

/-- Whether a search that ends with the first item of some kinds finds one, unless it comes upon a
malformed section before. -/
def search (wanted : Kind → Bool) : List Item → Except Unit Bool
  | [] => .ok false
  | .malformed :: _ => .error ()
  | .known kind :: rest => if wanted kind then .ok true else search wanted rest

end Rollout.Pem
