/-
PackageAudit.Text.Utf8 — texts from octets.

A lead octet says how many octets follow it and in which range each lies.
Octets that begin a character and do not complete it are one fault: either
the text ends too early or the next octet is out of range. A strict reading
stops at the first fault; a lenient one puts a replacement character in the
place of each.
-/
import PackageAudit.Text.Quoted

namespace PackageAudit.Text

/-- A sequence of octets. -/
abbrev Octets := List UInt8

namespace Utf8

/-- The ranges of the octets that a lead octet asks for. -/
def followers? (lead : Nat) : Option (List (Nat × Nat)) :=
  let tail := (0x80, 0xBF)
  if lead < 0x80 then some []
  else if lead < 0xC2 then none
  else if lead < 0xE0 then some [tail]
  else if lead == 0xE0 then some [(0xA0, 0xBF), tail]
  else if lead == 0xED then some [(0x80, 0x9F), tail]
  else if lead < 0xF0 then some [tail, tail]
  else if lead == 0xF0 then some [(0x90, 0xBF), tail, tail]
  else if lead < 0xF4 then some [tail, tail, tail]
  else if lead == 0xF4 then some [(0x80, 0x8F), tail, tail]
  else none

/-- The payload of a lead octet that asks for a number of others. -/
def leadBits (lead : Nat) : Nat → Nat
  | 0 => lead
  | 1 => lead - 0xC0
  | 2 => lead - 0xE0
  | _ => lead - 0xF0

/-- What makes octets no character. -/
inductive Fault where
  | badStart
  | badContinuation
  | earlyEnd
  deriving DecidableEq, BEq, Repr

/-- The words for a fault. -/
def Fault.words : Fault → String
  | .badStart => "invalid start byte"
  | .badContinuation => "invalid continuation byte"
  | .earlyEnd => "unexpected end of data"

/-- The octets that follow a lead octet: the code and the rest, or a fault
and how many octets were good. -/
def follow : List (Nat × Nat) → Nat → Nat → Octets → Except (Fault × Nat) (Nat × Octets)
  | [], code, _, rest => .ok (code, rest)
  | _ :: _, _, good, [] => .error (.earlyEnd, good)
  | (low, high) :: more, code, good, b :: rest =>
    if low ≤ b.toNat && b.toNat ≤ high then
      follow more (code * 64 + (b.toNat - 0x80)) (good + 1) rest
    else .error (.badContinuation, good)

/-- The character at the front: its code and the rest, or a fault and the
number of octets that it covers. -/
def character (lead : UInt8) (rest : Octets) : Except (Fault × Nat) (Nat × Octets) :=
  match followers? lead.toNat with
  | none => .error (.badStart, 1)
  | some ranges => follow ranges (leadBits lead.toNat ranges.length) 1 rest

/-- A fault in octets: those that it covers and where they begin. -/
structure Error where
  fault : Fault
  position : Nat
  octets : Octets
  deriving DecidableEq, Repr

/-- The message of an error. -/
def Error.message (e : Error) : String :=
  let place := match e.octets with
    | [b] => "byte 0x" ++ String.ofList (hexDigits 2 b.toNat) ++ s!" in position {e.position}"
    | bs => s!"bytes in position {e.position}-{e.position + bs.length - 1}"
  "'utf-8' codec can't decode " ++ place ++ ": " ++ e.fault.words

/-- Reads octets strictly; the fuel is their number. -/
def decodeFrom : Nat → Nat → Octets → List Char → Except Error (List Char)
  | 0, _, _, acc => .ok acc.reverse
  | _ + 1, _, [], acc => .ok acc.reverse
  | fuel + 1, position, b :: rest, acc =>
    match character b rest with
    | .ok (code, more) =>
      decodeFrom fuel (position + (rest.length + 1 - more.length)) more (Char.ofNat code :: acc)
    | .error (fault, count) => .error { fault, position, octets := (b :: rest).take count }

/-- The text of octets, or the first fault. -/
def decode (octets : Octets) : Except Error String :=
  (decodeFrom octets.length 0 octets []).map String.ofList

/-- Reads octets with a replacement character for each fault. -/
def decodeLenientFrom : Nat → Octets → List Char → List Char
  | 0, _, acc => acc.reverse
  | _ + 1, [], acc => acc.reverse
  | fuel + 1, b :: rest, acc =>
    match character b rest with
    | .ok (code, more) => decodeLenientFrom fuel more (Char.ofNat code :: acc)
    | .error (_, count) => decodeLenientFrom fuel (rest.drop (count - 1)) ('\ufffd' :: acc)

/-- The text of octets, faults replaced. -/
def decodeLenient (octets : Octets) : String :=
  String.ofList (decodeLenientFrom octets.length octets [])

/-- The octets of a text. -/
def encode (s : String) : Octets := s.toUTF8.toList

end Utf8

/-- A carriage return, alone or before a line feed, becomes a line feed. -/
def unifyLineEnds : List Char → List Char
  | [] => []
  | ['\r'] => ['\n']
  | '\r' :: '\n' :: cs => '\n' :: unifyLineEnds cs
  | '\r' :: cs => '\n' :: unifyLineEnds cs
  | c :: cs => c :: unifyLineEnds cs

end PackageAudit.Text
