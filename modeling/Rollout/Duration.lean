/-!
# Durations

Whole seconds and nanoseconds, and their shortest text: the largest unit that is not below one,
with a fraction that has no trailing zeros.
-/

namespace Rollout

structure Duration where
  secs : UInt64
  nanos : Nat
  deriving DecidableEq, Repr

namespace Duration

def ofSecs (n : UInt64) : Duration := ⟨n, 0⟩

def ofMillis (n : Nat) : Duration := ⟨UInt64.ofNat (n / 1000), n % 1000 * 1000000⟩

/-- The duration in whole milliseconds. -/
def millis (d : Duration) : Nat := d.secs.toNat * 1000 + d.nanos / 1000000

/-- The digits of a fraction with this many places, without trailing zeros. -/
def fractionDigits (places n : Nat) : List Char :=
  let digits := Nat.toDigits 10 n
  let padded := List.replicate (places - digits.length) '0' ++ digits
  (padded.reverse.dropWhile (· == '0')).reverse

/-- A number with a fraction of this many places, and the unit after it. -/
def spell (whole places fraction : Nat) (unit : String) : String :=
  let point := if fraction = 0 then [] else '.' :: fractionDigits places fraction
  String.ofList (Nat.toDigits 10 whole ++ point) ++ unit

def text (d : Duration) : String :=
  if d.secs ≠ 0 then spell d.secs.toNat 9 d.nanos "s"
  else if 1000000 ≤ d.nanos then spell (d.nanos / 1000000) 6 (d.nanos % 1000000) "ms"
  else if 1000 ≤ d.nanos then spell (d.nanos / 1000) 3 (d.nanos % 1000) "µs"
  else spell d.nanos 0 0 "ns"

end Duration
end Rollout
