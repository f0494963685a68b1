import CurlWarden.Number.Binary64

/-!
# Time

Times are exact rational seconds since the clock was started; every decision is made on them. The
clock itself shows binary64 seconds, and a duration that is reported is a difference of two
readings, so it carries their rounding.

A moment is a time together with the turn that is taken at it: work that resumes without waiting
resumes at the same time, one turn later.
-/

namespace CurlWarden

def seconds (millis : Nat) : Rat := mkRat millis 1000

/-- What a clock that shows `reading` shows after a wait. -/
def readingAfter (reading : Binary64) (wait : Rat) : Binary64 :=
  .ofRat (reading.toRat + (Binary64.ofRat wait).toRat)

/-- The whole milliseconds between two readings of the clock. -/
def millisBetween (start stop : Binary64) : Nat :=
  let difference := Binary64.ofRat (stop.toRat - start.toRat)
  (Binary64.ofRat (difference.toRat * 1000)).toRat.floor.toNat

/-- A point in the order of events. -/
structure Moment where
  time : Rat
  turn : Nat := 0
  /-- What the clock shows. -/
  reading : Binary64 := .zero
  deriving DecidableEq, Repr

namespace Moment

def start : Moment := ⟨0, 0, .zero⟩

def before (m n : Moment) : Bool := m.time < n.time || (m.time == n.time && m.turn < n.turn)

/-- The moment at which a wait that begins at `m` ends: one turn later if no time passes. -/
def after (m : Moment) (wait : Rat) : Moment :=
  if wait ≤ 0 then { m with turn := m.turn + 1 }
  else ⟨m.time + wait, 0, readingAfter m.reading wait⟩

def afresh (m : Moment) : Moment := { m with turn := 0 }

/-- The time in milliseconds, to the nearest. -/
def millis (m : Moment) : Nat :=
  let scaled := m.time * 1000
  Binary64.roundDiv scaled.num.toNat scaled.den

end Moment

end CurlWarden
