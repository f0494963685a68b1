import CurlWarden.Clock

/-!
# The gate

A gate lets a limited number of calls proceed at once. A call holds a slot from the moment it is
let through to its end; calls wait in the order in which they come, and the first that waits gets
the slot that becomes free.

Since no call depends on another but through its slot, the whole schedule follows from how long
each call holds its slot: a call is let through at the earliest moment, from its predecessor's on,
at which fewer calls than there are slots are in progress.
-/

namespace CurlWarden.Session

/-- A gate, made for one timeline of the clock. -/
structure Gate where
  timeline : Nat
  capacity : Nat
  free : Nat
  deriving DecidableEq, Repr

/-- When a call is let through, and when it ends. -/
structure Stay where
  slot : Moment
  finish : Moment
  deriving DecidableEq, Repr

namespace Gate

def ofCapacity (timeline capacity : Nat) : Gate := ⟨timeline, capacity, capacity⟩

def pending (now : Moment) (ends : List Moment) : List Moment := ends.filter (now.before ·)

/-- The earliest moment from `now` on at which fewer than `capacity` calls are in progress, where
`ends` are the ends of all the calls before. -/
def admission (capacity : Nat) (now : Moment) (ends : List Moment) : Moment :=
  let waiting := (pending now ends).mergeSort fun m n => !n.before m
  if waiting.length < capacity then now else (waiting[waiting.length - capacity]?).getD now

/-- The stay of a call that is let through at `slot`. A call that waits for nothing ends at once. -/
def stay (slot : Moment) (wait : Option Rat) : Stay := ⟨slot, wait.elim slot slot.after⟩

/-- The stays of calls that come together, by how long each waits for its child. The last call let
through got its slot at `now`, and `ends` are the ends of all the calls before. -/
def schedule (capacity : Nat) (now : Moment) (ends : List Moment) : List (Option Rat) → List Stay
  | [] => []
  | wait :: waits =>
    let stay := Gate.stay (admission capacity now ends) wait
    stay :: schedule capacity stay.slot (stay.finish :: ends) waits

/-- The last of the ends, or `now` if that is later. -/
def lastEnd (now : Moment) (ends : List Moment) : Moment :=
  ends.foldl (fun latest m => if latest.before m then m else latest) now

/-- The gate at `now`, after calls with the given ends were let through. -/
def settle (gate : Gate) (now : Moment) (ends : List Moment) : Gate :=
  { gate with free := gate.capacity - (pending now ends).length }

end Gate

end CurlWarden.Session
