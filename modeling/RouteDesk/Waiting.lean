/-! Limits of waiting that everyone who waits shares: how long one wait can last, what moments the
clock can show, and how many waits can end before the clock is looked at again.
-/

namespace RouteDesk

/-- The longest that one wait lasts, in milliseconds: thirty years of 365 days. -/
def longestWait : Nat := 946080000000

/-- How long a wait of so many milliseconds lasts. -/
def waited (millis : Nat) : Nat :=
  min millis longestWait

/-- The first moment that the clock cannot show, in milliseconds: it counts seconds in 63 bits. -/
def clockEnd : Nat := Nat.pow 2 63 * 1000

/-- How many waits can end at one moment in a row. Whoever goes on waiting then has to look
whether the time is over, even if the next wait would take no time.
-/
def waitsInARow : Nat := 128

/-- A wait takes time if it was meant to. -/
theorem waited_pos {millis : Nat} (positive : 0 < millis) : 0 < waited millis := by
  unfold waited longestWait
  omega

end RouteDesk
