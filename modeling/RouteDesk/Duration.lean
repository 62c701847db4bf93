/-! Spans of time and their exact texts: the largest unit that the span fills, and as many
places of a fraction as it needs.
-/

namespace RouteDesk

/-- A span of time in nanoseconds. -/
structure Duration where
  nanos : Nat
deriving DecidableEq

namespace Duration

/-- A span of whole milliseconds. -/
def ofMillis (millis : Nat) : Duration :=
  ⟨millis * 1000000⟩

/-- A span of whole seconds. -/
def ofSeconds (seconds : Nat) : Duration :=
  ⟨seconds * 1000000000⟩

/-- The digits of a fraction of `unit`, padded to the places of the unit and without zeros at
the end.
-/
def places (unit part : Nat) : List Char :=
  let width := (Nat.toDigits 10 unit).length - 1
  let digits := Nat.toDigits 10 part
  let padded := List.replicate (width - digits.length) '0' ++ digits
  (padded.reverse.dropWhile (· == '0')).reverse

/-- The text of a span measured in a unit of so many nanoseconds. -/
def inUnit (span : Duration) (unit : Nat) (symbol : String) : String :=
  let fraction := places unit (span.nanos % unit)
  let tail := if fraction = [] then [] else '.' :: fraction
  String.ofList (Nat.toDigits 10 (span.nanos / unit) ++ tail) ++ symbol

/-- The text of a span in seconds, milliseconds, microseconds or nanoseconds. -/
def text (span : Duration) : String :=
  if 1000000000 ≤ span.nanos then span.inUnit 1000000000 "s"
  else if 1000000 ≤ span.nanos then span.inUnit 1000000 "ms"
  else if 1000 ≤ span.nanos then span.inUnit 1000 "µs"
  else span.inUnit 1 "ns"

end Duration

end RouteDesk
