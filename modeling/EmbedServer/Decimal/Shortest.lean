/-
The fewest decimal digits that read back as the same double.

The reals that round to `m · 2 ^ q` form an interval around it; its ends belong to it exactly when
`m` is even.  For one digit, two digits and so on, the number's two neighbours on that decimal grid
are tested against the interval.  The first grid with a hit gives the length, of two hits the nearer
one wins, and of two equally near ones the larger.  If some point of a grid lies in the interval,
so does a neighbour of the number, which is why testing the neighbours is enough; seventeen digits
always have a hit.
-/
import EmbedServer.Decimal.Binary64

namespace EmbedServer.Decimal

/-- A decimal number `digits · 10 ^ exponent`. -/
structure Scaled where
  digits : Nat
  exponent : Int
  deriving DecidableEq, Repr

/-- How many decimal digits a whole number has. -/
def digitCount (n : Nat) : Nat := (Nat.toDigits 10 n).length

/-- The power of ten at or below a positive ratio. -/
def magnitude (r : Ratio) : Int :=
  if r.den ≤ r.num then (digitCount (r.num / r.den) : Int) - 1
  else
    let t := digitCount (r.den / r.num)
    if r.den ≤ r.num * Nat.pow 10 (t - 1) then -((t : Int) - 1) else -(t : Int)

/-- The reals that round to one double, in units of a quarter of its last place. -/
structure Interval where
  /-- The number itself is `4 * m` units. -/
  low : Nat
  high : Nat
  closed : Bool
  /-- The power of two of the unit. -/
  unit : Int

/-- The interval of `m · 2 ^ q`, for `m` not zero.  Below a power of two the gap is half as wide. -/
def Interval.around (m : Nat) (q : Int) : Interval where
  low := if m = Binary64.hidden ∧ Binary64.leastExponent < q then 4 * m - 1 else 4 * m - 2
  high := 4 * m + 2
  closed := m % 2 == 0
  unit := q - 2

/-- Whether `d · 10 ^ k` lies in the interval. -/
def Interval.holds (i : Interval) (d : Nat) (k : Int) : Bool :=
  let low := Ratio.scaled i.low i.unit k
  let high := Ratio.scaled i.high i.unit k
  if i.closed then low.num ≤ d * low.den && d * high.den ≤ high.num
  else low.num < d * low.den && d * high.den < high.num

/-- The neighbour of `m · 2 ^ q` among the multiples of `10 ^ k` that reads back, if one does. -/
def neighbour (m : Nat) (q k : Int) : Option Nat :=
  let r := Ratio.scaled m q k
  let d := r.floor
  let interval := Interval.around m q
  match interval.holds d k, interval.holds (d + 1) k with
  | true, true => if 2 * (r.num % r.den) < r.den then some d else some (d + 1)
  | true, false => some d
  | false, true => some (d + 1)
  | false, false => none

/-- The first grid with a hit, from `n` digits on; `fuel` counts the grids still to try. -/
def search (m : Nat) (q top : Int) : (fuel n : Nat) → Scaled
  | 0, _ => ⟨(Ratio.scaled m q (top - 16)).floor, top - 16⟩
  | fuel + 1, n =>
    let k := top - (n : Int) + 1
    match neighbour m q k with
    | some d => ⟨d, k⟩
    | none => search m q top fuel (n + 1)

/-- The same number without zeros at its end; `fuel` bounds their count. -/
def Scaled.stripped : (fuel : Nat) → Scaled → Scaled
  | 0, s => s
  | fuel + 1, s =>
    if s.digits % 10 = 0 ∧ s.digits ≠ 0 then stripped fuel ⟨s.digits / 10, s.exponent + 1⟩ else s

/-- The shortest decimal that reads back as `m · 2 ^ q`. -/
def shortest (m : Nat) (q : Int) : Scaled :=
  if m = 0 then ⟨0, 0⟩
  else (search m q (magnitude (Ratio.scaled m q 0)) 17 1).stripped 20

end EmbedServer.Decimal
