/-!
# Durations

Spans of time in milliseconds, and how messages write them.
-/

namespace Playback

def thousandths (n : Nat) : String :=
  let digits := [n / 100, n / 10 % 10, n % 10]
  let kept := (digits.reverse.dropWhile (· == 0)).reverse
  String.join (kept.map toString)

/-- The span in whole or broken seconds from one second on, in milliseconds below. -/
def describeMillis (ms : Nat) : String :=
  if ms = 0 then "0ns"
  else if ms < 1000 then toString ms ++ "ms"
  else
    let fraction := thousandths (ms % 1000)
    toString (ms / 1000) ++ (if fraction.isEmpty then "" else "." ++ fraction) ++ "s"

end Playback
