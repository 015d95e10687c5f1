import Rollout.Text.Utf8
/-!
# Variable-length integers

Seven bits to a byte, the lowest first; every byte but the last has its high bit set. A number has
at most ten bytes and the tenth holds a single bit, so what is read fits in 64 bits.
-/

namespace Rollout.Wire.Varint

def write (n : Nat) : Bytes :=
  if n < 128 then [UInt8.ofNat n] else UInt8.ofNat (n % 128 + 128) :: write (n / 128)
termination_by n

/-- Reads on after some bytes, whose value is known. -/
def readFrom (place value : Nat) : Bytes → Option (Nat × Bytes)
  | [] => none
  | b :: rest =>
    if place = 9 ∧ 2 ≤ b.toNat then none
    else
      let value := value + (b.toNat % 128) <<< (7 * place)
      if b.toNat < 128 then some (value, rest) else readFrom (place + 1) value rest

/-- A number and the bytes after it. -/
def read? (bytes : Bytes) : Option (Nat × Bytes) := readFrom 0 0 bytes

theorem length_readFrom {place value : Nat} {bytes : Bytes} {n : Nat} {rest : Bytes}
    (h : readFrom place value bytes = some (n, rest)) : rest.length < bytes.length := by
  induction bytes generalizing place value with
  | nil => simp [readFrom] at h
  | cons b bs ih =>
    simp only [readFrom] at h
    split at h
    · simp at h
    · split at h
      · simp only [Option.some.injEq, Prod.mk.injEq] at h
        simp [h.2]
      · have := ih h
        simp only [List.length_cons]
        omega

theorem length_read? {bytes : Bytes} {n : Nat} {rest : Bytes}
    (h : read? bytes = some (n, rest)) : rest.length < bytes.length :=
  length_readFrom h

end Rollout.Wire.Varint
