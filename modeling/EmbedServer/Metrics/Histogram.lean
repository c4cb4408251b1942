/-
Latency histograms.

A histogram counts, for each bound, the observations that are at most that bound, so each bucket
includes the ones before it.  An observation is a number of whole milliseconds, of which the histogram
sees the nearest double.  The sum is kept in sixty-four bits: that double enters it cut off at the
largest sixty-four bit number, and the addition wraps around.
-/

namespace EmbedServer.Metrics

/-- The bounds of the buckets, in milliseconds. -/
def bounds : List Nat := [1, 5, 10, 25, 50, 100, 250, 500, 1000, 2500, 5000]

/-- The double nearest to a whole number, a half going to the even significand. -/
def nearestDouble (n : Nat) : Nat :=
  let excess := Nat.log2 n - 52
  let unit := Nat.pow 2 excess
  let whole := n / unit
  let twice := 2 * (n % unit)
  let rounded := if twice < unit then whole else if unit < twice then whole + 1 else whole + whole % 2
  rounded * unit

/-- An observation as it enters the sum. -/
def summand (ms : Nat) : UInt64 := (min (nearestDouble ms) (UInt64.size - 1)).toUInt64

/-- Counts per bound, the sum and the number of the observations. -/
structure Histogram where
  buckets : List (Nat × UInt64)
  sum : UInt64
  count : UInt64
  deriving DecidableEq, Repr

namespace Histogram

def empty : Histogram := ⟨bounds.map fun b => (b, 0), 0, 0⟩

/-- Counts one observation in every bucket whose bound its double does not exceed. -/
def observe (h : Histogram) (ms : Nat) : Histogram where
  buckets := h.buckets.map fun (bound, n) => (bound, if nearestDouble ms ≤ bound then n + 1 else n)
  sum := h.sum + summand ms
  count := h.count + 1

/-- The exported lines of a histogram. -/
def lines (h : Histogram) (name help : String) : List String :=
  ["# HELP " ++ name ++ " " ++ help, "# TYPE " ++ name ++ " histogram"]
    ++ h.buckets.map (fun (bound, n) =>
      name ++ "_bucket\x7ble=\"" ++ toString bound ++ "\"\x7d " ++ toString n)
    ++ [name ++ "_bucket\x7ble=\"+Inf\"\x7d " ++ toString h.count,
      name ++ "_sum " ++ toString (nearestDouble h.sum.toNat) ++ ".000",
      name ++ "_count " ++ toString h.count]

end Histogram

end EmbedServer.Metrics
