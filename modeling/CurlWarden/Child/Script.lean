import CurlWarden.Text.Utf8

/-!
# Child processes

How a child process behaves, as seen by the process that starts it: whether it starts at all, what
it writes on its two streams and when, when it closes them, and when and how it exits. Times are
in milliseconds after the start; a moment that never comes is absent.
-/

namespace CurlWarden.Child

inductive Start where
  | started
  /-- The system refuses, for the reason given. -/
  | refused (text : String)
  /-- The attempt breaks down in a way that nobody expects. -/
  | broken (text : String)
  deriving DecidableEq, Repr

inductive Stream where
  | out
  | err
  deriving DecidableEq, Repr

structure Chunk where
  time : Nat
  stream : Stream
  bytes : List UInt8
  deriving DecidableEq, Repr

structure Script where
  start : Start := .started
  chunks : List Chunk := []
  /-- When both streams are closed. -/
  closes : Option Nat := some 0
  /-- When the child exits. -/
  exits : Option Nat := some 0
  /-- The exit code, if it becomes known. -/
  exitCode : Option Int := some 0
  /-- Does an attempt to kill the child find it gone? -/
  elusive : Bool := false
  deriving DecidableEq, Repr, Inhabited

namespace Script

/-- How many bytes have arrived by `time`, on both streams together. -/
def written (script : Script) (time : Nat) : Nat :=
  ((script.chunks.filter (·.time ≤ time)).map (·.bytes.length)).foldr (· + ·) 0

/-- The first moment at which a byte arrives and more than `limit` bytes have arrived. -/
def overflow? (script : Script) (limit : Int) : Option Nat :=
  let arrivals := (script.chunks.filter (!·.bytes.isEmpty)).map (·.time)
  (arrivals.filter fun time => limit < script.written time).min?

/-- When the child has exited and closed both streams. -/
def done? (script : Script) : Option Nat :=
  match script.closes, script.exits with
  | some closes, some exits => some (max closes exits)
  | _, _ => none

/-- Everything that arrives on a stream, in order of arrival. -/
def bytesOn (script : Script) (stream : Stream) : List UInt8 :=
  ((script.chunks.filter (·.stream = stream)).mergeSort fun a b => a.time ≤ b.time).flatMap
    (·.bytes)

def textOn (script : Script) (stream : Stream) : String :=
  String.ofList (Text.Utf8.decode (script.bytesOn stream))

end Script

end CurlWarden.Child
