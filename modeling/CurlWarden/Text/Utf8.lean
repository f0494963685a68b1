/-!
# UTF-8 with replacement

Reading bytes that may not be UTF-8. The decoder is a machine that takes one byte at a time and
holds the character it is in the middle of. Where the bytes leave UTF-8, everything taken of the
broken character becomes one replacement character, and the offending byte is looked at afresh, so
each maximal invalid subpart costs exactly one replacement character.
-/

namespace CurlWarden.Text.Utf8

/-- Stands for bytes that are no character. -/
def replacement : Char := '\uFFFD'

/-- The character that the decoder is in the middle of: the bits read so far, how many bytes are
still owed, and the range in which the next one must lie. -/
structure Pending where
  bits : Nat
  owed : Nat
  low : Nat
  high : Nat
  deriving DecidableEq, Repr

/-- The pending character after a first byte, if that byte starts a character of several bytes.
The narrowed ranges exclude overlong forms, surrogates and values beyond the last character. -/
def Pending.ofLead? (b : Nat) : Option Pending :=
  if 0xC2 ≤ b && b ≤ 0xDF then some ⟨b - 0xC0, 1, 0x80, 0xBF⟩
  else if b == 0xE0 then some ⟨0, 2, 0xA0, 0xBF⟩
  else if b == 0xED then some ⟨0xD, 2, 0x80, 0x9F⟩
  else if 0xE1 ≤ b && b ≤ 0xEF then some ⟨b - 0xE0, 2, 0x80, 0xBF⟩
  else if b == 0xF0 then some ⟨0, 3, 0x90, 0xBF⟩
  else if 0xF1 ≤ b && b ≤ 0xF3 then some ⟨b - 0xF0, 3, 0x80, 0xBF⟩
  else if b == 0xF4 then some ⟨4, 3, 0x80, 0x8F⟩
  else none

/-- Takes a byte between characters: what it yields, and what it leaves pending. -/
def start (b : Nat) : List Char × Option Pending :=
  if b < 0x80 then ([Char.ofNat b], none)
  else match Pending.ofLead? b with
    | some pending => ([], some pending)
    | none => ([replacement], none)

/-- Takes a byte: what it yields, and what it leaves pending. -/
def step (pending : Option Pending) (b : Nat) : List Char × Option Pending :=
  match pending with
  | none => start b
  | some p =>
    if p.low ≤ b && b ≤ p.high then
      let bits := p.bits * 64 + (b - 0x80)
      if p.owed ≤ 1 then ([Char.ofNat bits], none)
      else ([], some ⟨bits, p.owed - 1, 0x80, 0xBF⟩)
    else
      let (yielded, next) := start b
      (replacement :: yielded, next)

/-- Runs the machine over `bytes`, where `read` holds what has been yielded, last first. -/
def run : (read : List Char) → Option Pending → List UInt8 → List Char
  | read, none, [] => read.reverse
  | read, some _, [] => (replacement :: read).reverse
  | read, pending, b :: bytes =>
    let (yielded, next) := step pending b.toNat
    run (yielded.reverse ++ read) next bytes

/-- The text that `bytes` hold, with a replacement character for each maximal invalid subpart. -/
def decode (bytes : List UInt8) : List Char := run [] none bytes

def encode (cs : List Char) : List UInt8 := cs.flatMap String.utf8EncodeChar

example : decode [0xE2, 0x82, 0xAC] = ['€'] := by decide
example : decode [0xED, 0xA0, 0x80] = [replacement, replacement, replacement] := by decide
example : decode [0x41, 0xE2, 0x82] = ['A', replacement] := by decide

end CurlWarden.Text.Utf8
