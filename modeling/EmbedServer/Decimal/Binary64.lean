/-
A double-precision number in the open: sign, whole significand, power of two.

Every statement about the text of a number is a statement about `m · 2 ^ q`, in whole numbers, so
the rest of this folder never computes with floating point.
-/

namespace EmbedServer

/-- What a double-precision number denotes. -/
inductive Binary64 where
  /-- The number `m · 2 ^ q`, with its sign; both zeros have significand zero. -/
  | finite (negative : Bool) (m : Nat) (q : Int)
  | infinite (negative : Bool)
  | nan
  deriving DecidableEq, Repr

namespace Binary64

/-- The least exponent, which the subnormal numbers share with the smallest normal ones. -/
def leastExponent : Int := -1074

/-- The significand at which the gap below a number is half the gap above. -/
def hidden : Nat := 0x10000000000000

def ofFloat (x : Float) : Binary64 :=
  let bits := x.toBits.toNat
  let negative := bits / 0x8000000000000000 == 1
  let exponent : Nat := bits / hidden % 2048
  let fraction := bits % hidden
  if exponent = 2047 then
    if fraction = 0 then .infinite negative else .nan
  else if exponent = 0 then .finite negative fraction leastExponent
  else .finite negative (hidden + fraction) ((exponent : Int) - 1075)

end Binary64

/-- A ratio of whole numbers. -/
structure Ratio where
  num : Nat
  den : Nat

namespace Ratio

/-- The number `m · 2 ^ q · 10 ^ (-k)`. -/
def scaled (m : Nat) (q k : Int) : Ratio where
  num := m * Nat.pow 2 q.toNat * Nat.pow 10 (-k).toNat
  den := Nat.pow 2 (-q).toNat * Nat.pow 10 k.toNat

/-- The whole part. -/
def floor (r : Ratio) : Nat := r.num / r.den

/-- The nearest whole number, a half going to the even neighbour. -/
def round (r : Ratio) : Nat :=
  let whole := r.num / r.den
  let twice := 2 * (r.num % r.den)
  if twice < r.den then whole
  else if r.den < twice then whole + 1
  else whole + whole % 2

end Ratio

end EmbedServer
