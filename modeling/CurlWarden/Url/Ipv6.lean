import CurlWarden.Text.Digit

/-!
# IPv6 addresses

The strict text form of an IPv6 address: eight groups of one to four hexadecimal digits between
colons, where `::` may stand once for one group or more, and a dotted IPv4 address may stand for
the last two groups.
-/

namespace CurlWarden.Url.Ipv6

/-- One of the four numbers of an IPv4 address: at most 255, without leading zeros. -/
def isOctet (cs : List Char) : Bool :=
  !cs.isEmpty && cs.length ≤ 3 && cs.all Text.isAsciiDigit &&
    (cs.head? != some '0' || cs.length == 1) && Text.digitsValue cs ≤ 255

def isIpv4 (cs : List Char) : Bool :=
  let octets := cs.splitOn '.'
  octets.length == 4 && octets.all isOctet

/-- One to four hexadecimal digits. -/
def isGroup (cs : List Char) : Bool :=
  !cs.isEmpty && cs.length ≤ 4 && cs.all fun c => (Text.hexValue? c).isSome

/-- How many groups the parts between colons stand for; `tail` tells whether they end the address,
so that the last may be an IPv4 address. -/
def groupCount? (tail : Bool) : List (List Char) → Option Nat
  | [] => some 0
  | [last] =>
    if isGroup last then some 1
    else if tail && isIpv4 last then some 2
    else none
  | part :: parts => if isGroup part then (groupCount? tail parts).map (· + 1) else none

/-- How many groups a run of groups between colons stands for; an empty run stands for none. -/
def runCount? (tail : Bool) (cs : List Char) : Option Nat :=
  if cs.isEmpty then some 0 else groupCount? tail (cs.splitOn ':')

/-- The text before the first `::` and the text after it. -/
def splitGap? : List Char → Option (List Char × List Char)
  | ':' :: ':' :: cs => some ([], cs)
  | c :: cs => (splitGap? cs).map fun (before, after) => (c :: before, after)
  | [] => none

/-- Is the text an IPv6 address without a scope? -/
def isAddress (cs : List Char) : Bool :=
  match splitGap? cs with
  | none => runCount? true cs == some 8
  | some (before, after) =>
    match runCount? false before, runCount? true after with
    | some m, some n => m + n ≤ 7
    | _, _ => false

/-- Is the text an IPv6 address, with a scope after a percent sign or without one? -/
def isScopedAddress (cs : List Char) : Bool :=
  let scope := cs.dropWhile (· != '%')
  isAddress (cs.takeWhile (· != '%')) &&
    (scope.isEmpty || (scope.length ≠ 1 && !(scope.drop 1).contains '%'))

example : isAddress "::1".toList && isAddress "::".toList && isAddress "1::".toList := by decide
example : isAddress "::ffff:1.2.3.4".toList = true := by decide
example : isAddress ":::".toList = false := by decide
example : isAddress "1.2.3.4::".toList = false := by decide
example : isAddress "1:2:3:4:5:6:7::8".toList = false := by decide

end CurlWarden.Url.Ipv6
