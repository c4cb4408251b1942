/-
Numbers as text.

One way of writing digits serves every place a number is shown; the places differ in a `Style`: up
to which size a number is written without an exponent, whether a whole number keeps a point, whether
a positive exponent has a sign, and what stands for the values that are no numbers.
-/
import EmbedServer.Decimal.Shortest

namespace EmbedServer.Decimal

/-- How one place writes its numbers. -/
structure Style where
  /-- The decimal exponents written without an exponent part run from here … -/
  lowest : Int
  /-- … to here. -/
  highest : Int
  /-- Whether a whole number written without an exponent ends in a point and a zero. -/
  keepPoint : Bool
  /-- Whether a positive exponent carries a plus sign. -/
  plusSign : Bool
  nan : String
  infinity : String
  negativeInfinity : String

/-- Numbers in JSON text: whole ones keep their point, and what is not finite is null. -/
def json : Style := ⟨-5, 15, true, true, "null", "null", "null"⟩

/-- Numbers in messages that show a value's structure. -/
def shown : Style := ⟨-5, 15, true, false, "NaN", "inf", "-inf"⟩

/-- Numbers as plain text, never with an exponent. -/
def plain : Style := ⟨-400, 400, false, false, "NaN", "inf", "-inf"⟩

/-- Plain numbers of which whole ones keep their point. -/
def pointed : Style := { plain with keepPoint := true }

/-- Digits `ds` whose first one stands at the power `top` of ten, without an exponent part. -/
def positional (keepPoint : Bool) (ds : List Char) (top : Int) : List Char :=
  if top < 0 then
    ['0', '.'] ++ List.replicate (-top - 1).toNat '0' ++ ds
  else
    let whole := top.toNat + 1
    let left := ds.take whole ++ List.replicate (whole - ds.length) '0'
    match ds.drop whole with
    | [] => if keepPoint then left ++ ['.', '0'] else left
    | fraction => left ++ '.' :: fraction

/-- Digits `ds` whose first one stands at the power `top` of ten, with an exponent part. -/
def scientific (plusSign : Bool) (ds : List Char) (top : Int) : List Char :=
  let mantissa := match ds with
    | d :: e :: rest => d :: '.' :: e :: rest
    | _ => ds
  let sign := if top < 0 then ['-'] else if plusSign then ['+'] else []
  mantissa ++ 'e' :: sign ++ Nat.toDigits 10 top.natAbs

/-- The text of a decimal number without its sign. -/
def Style.unsigned (style : Style) (s : Scaled) : List Char :=
  let ds := Nat.toDigits 10 s.digits
  let top := s.exponent + (ds.length : Int) - 1
  if s.digits = 0 ∨ (style.lowest ≤ top ∧ top ≤ style.highest) then
    positional style.keepPoint ds top
  else scientific style.plusSign ds top

/-- The text of a number. -/
def Style.text (style : Style) (x : Float) : String :=
  match Binary64.ofFloat x with
  | .nan => style.nan
  | .infinite negative => if negative then style.negativeInfinity else style.infinity
  | .finite negative m q =>
    let digits := style.unsigned (shortest m q)
    String.ofList (if negative then '-' :: digits else digits)

/-- The text of a number with exactly `places` digits after the point. -/
def fixed (places : Nat) (x : Float) : String :=
  match Binary64.ofFloat x with
  | .nan => "NaN"
  | .infinite negative => if negative then "-inf" else "inf"
  | .finite negative m q =>
    let n := (Ratio.scaled m q (-(places : Int))).round
    let ds := Nat.toDigits 10 n
    let ds := List.replicate (places + 1 - ds.length) '0' ++ ds
    let whole := ds.length - places
    let digits := ds.take whole ++ (if places = 0 then [] else '.' :: ds.drop whole)
    String.ofList (if negative then '-' :: digits else digits)

end EmbedServer.Decimal
