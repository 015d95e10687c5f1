import Rollout.Wire.Varint
/-!
# Fields on the wire

A message is a row of fields, each with a number and a payload of one of five shapes. A group is a
row of fields between two marks with one number; what it holds is passed over. Marks may be nested
to a limited depth, and a field inside a group needs a level of its own.
-/

namespace Rollout.Wire

inductive Payload where
  | varint (n : Nat)
  | fixed64 (bytes : Bytes)
  | bytes (content : Bytes)
  | group
  | fixed32 (bytes : Bytes)
  deriving DecidableEq, Repr

structure Field where
  number : Nat
  payload : Payload
  deriving DecidableEq, Repr

namespace Field

/-- The number and shape that open a field, written as one integer. -/
def writeKey (number shape : Nat) : Bytes := Varint.write (number * 8 + shape)

def write (f : Field) : Bytes :=
  match f.payload with
  | .varint n => writeKey f.number 0 ++ Varint.write n
  | .fixed64 bytes => writeKey f.number 1 ++ bytes
  | .bytes content => writeKey f.number 2 ++ Varint.write content.length ++ content
  | .group => writeKey f.number 3 ++ writeKey f.number 4
  | .fixed32 bytes => writeKey f.number 5 ++ bytes

def writeAll (fields : List Field) : Bytes := fields.flatMap write

/-- Number and shape of the next field: the number is not zero and both fit in 32 bits. -/
def readKey? (bytes : Bytes) : Option (Nat × Nat × Bytes) :=
  match Varint.read? bytes with
  | some (key, rest) =>
    if key < UInt32.size ∧ 8 ≤ key then some (key / 8, key % 8, rest) else none
  | none => none

/-- The next bytes, which must be there. -/
def take? (n : Nat) (bytes : Bytes) : Option (Bytes × Bytes) :=
  if n ≤ bytes.length then some (bytes.take n, bytes.drop n) else none

/-- A payload that is no group. -/
def readPayload? (shape : Nat) (bytes : Bytes) : Option (Payload × Bytes) :=
  match shape with
  | 0 => (Varint.read? bytes).map fun (n, rest) => (.varint n, rest)
  | 1 => (take? 8 bytes).map fun (content, rest) => (.fixed64 content, rest)
  | 2 =>
    match Varint.read? bytes with
    | some (n, rest) => (take? n rest).map fun (content, rest) => (.bytes content, rest)
    | none => none
  | 5 => (take? 4 bytes).map fun (content, rest) => (.fixed32 content, rest)
  | _ => none

theorem length_readKey? {bytes : Bytes} {number shape : Nat} {rest : Bytes}
    (h : readKey? bytes = some (number, shape, rest)) : rest.length < bytes.length := by
  simp only [readKey?] at h
  split at h
  next hread =>
    split at h
    · simp only [Option.some.injEq, Prod.mk.injEq] at h
      rw [← h.2.2]
      exact Varint.length_read? hread
    · simp at h
  · simp at h

theorem length_take? {n : Nat} {bytes content rest : Bytes}
    (h : take? n bytes = some (content, rest)) : rest.length ≤ bytes.length := by
  simp only [take?] at h
  split at h
  · simp only [Option.some.injEq, Prod.mk.injEq] at h
    simp [← h.2]
  · simp at h

theorem length_readPayload? {shape : Nat} {bytes : Bytes} {p : Payload} {rest : Bytes}
    (h : readPayload? shape bytes = some (p, rest)) : rest.length ≤ bytes.length := by
  simp only [readPayload?] at h
  split at h
  · obtain ⟨⟨n, r⟩, hread, hr⟩ := Option.map_eq_some_iff.1 h
    simp only [Prod.mk.injEq] at hr
    have := Varint.length_read? hread
    rw [← hr.2]
    omega
  · obtain ⟨⟨c, r⟩, htake, hr⟩ := Option.map_eq_some_iff.1 h
    simp only [Prod.mk.injEq] at hr
    exact hr.2 ▸ length_take? htake
  · split at h
    next hread =>
      obtain ⟨⟨c, r⟩, htake, hr⟩ := Option.map_eq_some_iff.1 h
      simp only [Prod.mk.injEq] at hr
      have := Varint.length_read? hread
      have := length_take? htake
      rw [← hr.2]
      omega
    · simp at h
  · obtain ⟨⟨c, r⟩, htake, hr⟩ := Option.map_eq_some_iff.1 h
    simp only [Prod.mk.injEq] at hr
    exact hr.2 ▸ length_take? htake
  · simp at h

/-- The field as it counts at this place: inside a group it does not. -/
def keep (opened : List Nat) (f : Field) (rest : List Field) : List Field :=
  if opened.isEmpty then f :: rest else rest

/-- The fields from here on, inside groups that have been opened, the innermost first. -/
def readFrom (depth : Nat) (opened : List Nat) (bytes : Bytes) : Option (List Field) :=
  if bytes.isEmpty then if opened.isEmpty then some [] else none
  else
    match hkey : readKey? bytes with
    | none => none
    | some (number, shape, rest) =>
      have := length_readKey? hkey
      if shape = 4 then
        match opened with
        | [] => none
        | innermost :: outer =>
          if innermost = number then
            (readFrom depth outer rest).map (keep outer ⟨number, .group⟩)
          else none
      else if depth ≤ opened.length then none
      else if shape = 3 then readFrom depth (number :: opened) rest
      else
        match hpayload : readPayload? shape rest with
        | none => none
        | some (payload, rest') =>
          have := length_readPayload? hpayload
          (readFrom depth opened rest').map (keep opened ⟨number, payload⟩)
termination_by bytes.length

/-- The fields of a message whose groups may be nested to this depth. -/
def readAll (depth : Nat) (bytes : Bytes) : Option (List Field) := readFrom depth [] bytes

end Field
end Rollout.Wire
