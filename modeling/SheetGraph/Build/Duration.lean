/-!
# Durations

Durations are counted in nanoseconds.  `durationText` writes one exactly, in the largest unit that
it fills; `roundedDuration` writes one in milliseconds or hundredths of a second.
-/

namespace SheetGraph

/-- The number `n` in `width` digits. -/
def padded (width n : Nat) : List Char :=
  let digits := Nat.toDigits 10 n
  List.replicate (width - digits.length) '0' ++ digits

/-- The quotient of `nanos` by a power of ten with all its digits, zeros at its end left out. -/
def decimalText (nanos places : Nat) : List Char :=
  let unit := Nat.pow 10 places
  let whole := Nat.toDigits 10 (nanos / unit)
  match ((padded places (nanos % unit)).reverse.dropWhile (· == '0')).reverse with
  | [] => whole
  | digits => whole ++ '.' :: digits

/-- A duration in the largest unit that it fills. -/
def durationText (nanos : Nat) : String :=
  let (places, unit) : Nat × String :=
    if 1000000000 ≤ nanos then (9, "s")
    else if 1000000 ≤ nanos then (6, "ms")
    else if 1000 ≤ nanos then (3, "µs")
    else (0, "ns")
  if places = 0 then toString nanos ++ unit
  else String.ofList (decimalText nanos places) ++ unit

/-- A duration in milliseconds below a second, and in hundredths of a second above. -/
def roundedDuration (nanos : Nat) : String :=
  let millis := nanos / 1000000
  if millis < 1000 then toString millis ++ "ms"
  else
    let hundredths := (nanos + 5000000) / 10000000
    toString (hundredths / 100) ++ "." ++ String.ofList (padded 2 (hundredths % 100)) ++ "s"

end SheetGraph
