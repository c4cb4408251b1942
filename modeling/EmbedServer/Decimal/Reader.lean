/-
Decimal text as a double.

A decimal is read as its whole digits and a power of ten, and the nearest double is taken in one
rounding.  Powers far outside the range of doubles are decided without computing them.
-/
import EmbedServer.Decimal.Shortest

namespace EmbedServer.Decimal

/-- The double nearest to `digits · 10 ^ exponent`. -/
def nearest (digits : Nat) (exponent : Int) : Float :=
  if digits = 0 then 0.0
  else
    let top := exponent + (digitCount digits : Int)
    if 310 < top then 1.0 / 0.0
    else if top < -330 then 0.0
    else if 0 ≤ exponent then Float.ofScientific digits false exponent.toNat
    else Float.ofScientific digits true (-exponent).toNat

/-- The value of a digit. -/
def digitValue (c : Char) : Nat := c.toNat - '0'.toNat

/-- The number that a run of decimal digits spells. -/
def ofDigits (ds : List Char) : Nat := ds.foldl (fun n c => n * 10 + digitValue c) 0

/-- A sign in front of a number, and what follows it. -/
def takeSign : List Char → Bool × List Char
  | '-' :: rest => (true, rest)
  | '+' :: rest => (false, rest)
  | rest => (false, rest)

/-- The exponent part of a number: nothing, or a letter, a sign and at least one digit. -/
def readExponent? : List Char → Option Int
  | [] => some 0
  | c :: rest =>
    if c = 'e' ∨ c = 'E' then
      let (negative, ds) := takeSign rest
      if ds.isEmpty || !ds.all Char.isDigit then none
      else some (if negative then -(ofDigits ds : Int) else (ofDigits ds : Int))
    else none

/-- The double that a text spells: a sign, digits with at most one point among or around them, an
exponent; or one of the words for the values that are no numbers, in any case. -/
def readFloat? (text : List Char) : Option Float :=
  let (negative, body) := takeSign text
  let signed (x : Float) : Float := if negative then -x else x
  let word := String.ofList (body.map Char.toLower)
  if word = "nan" then some (signed (0.0 / 0.0))
  else if word = "inf" ∨ word = "infinity" then some (signed (1.0 / 0.0))
  else
    let whole := body.takeWhile Char.isDigit
    let rest := body.dropWhile Char.isDigit
    let (fraction, tail) := match rest with
      | '.' :: r => (r.takeWhile Char.isDigit, r.dropWhile Char.isDigit)
      | r => ([], r)
    if whole.isEmpty && fraction.isEmpty then none
    else
      (readExponent? tail).map fun e =>
        signed (nearest (ofDigits (whole ++ fraction)) (e - (fraction.length : Int)))

/-- The whole number that a text spells: an optional sign, then digits. -/
def readInt? (text : List Char) : Option Int :=
  let (negative, ds) := takeSign text
  if ds.isEmpty || !ds.all Char.isDigit then none
  else some (if negative then -(ofDigits ds : Int) else (ofDigits ds : Int))

end EmbedServer.Decimal
