/-
Text whose first bytes may say how it is encoded.

A byte order mark names one of three encodings and is not part of the text; without one the bytes
are UTF-8.  Whatever the encoding does not allow becomes a replacement character.
-/
import EmbedServer.Text.Utf8

namespace EmbedServer.Text

/-- The 16-bit units of bytes; `high` says whether the high byte comes first.  An odd byte at the
end is no unit. -/
def units16 (high : Bool) : List UInt8 → List (Option Nat)
  | [] => []
  | [_] => [none]
  | a :: b :: rest =>
    some (if high then a.toNat * 256 + b.toNat else b.toNat * 256 + a.toNat) :: units16 high rest

/-- Whether a unit is the first half of a pair. -/
def isHighHalf (u : Nat) : Bool := decide (0xD800 ≤ u ∧ u < 0xDC00)

/-- Whether a unit is the second half of a pair. -/
def isLowHalf (u : Nat) : Bool := decide (0xDC00 ≤ u ∧ u < 0xE000)

/-- The characters of 16-bit units. -/
def ofUnits16 : List (Option Nat) → List Char
  | [] => []
  | none :: rest => Utf8.replacement :: ofUnits16 rest
  | some u :: some v :: rest =>
    if isHighHalf u && isLowHalf v then
      Char.ofNat (0x10000 + (u - 0xD800) * 0x400 + (v - 0xDC00)) :: ofUnits16 rest
    else if isHighHalf u || isLowHalf u then Utf8.replacement :: ofUnits16 (some v :: rest)
    else Char.ofNat u :: ofUnits16 (some v :: rest)
  | some u :: rest =>
    (if isHighHalf u || isLowHalf u then Utf8.replacement else Char.ofNat u) :: ofUnits16 rest

/-- The text that bytes spell. -/
def decodeMarked : List UInt8 → String
  | 0xEF :: 0xBB :: 0xBF :: rest => Utf8.decodeLossy rest
  | 0xFF :: 0xFE :: rest => String.ofList (ofUnits16 (units16 false rest))
  | 0xFE :: 0xFF :: rest => String.ofList (ofUnits16 (units16 true rest))
  | bytes => Utf8.decodeLossy bytes

end EmbedServer.Text
