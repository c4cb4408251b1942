/-
Spans of time, and their text.

A span is a whole number of nanoseconds.  Its text uses the largest unit that leaves a whole part
and drops zeros at the end of the fraction.
-/

namespace EmbedServer

/-- A span of time, in nanoseconds. -/
structure Duration where
  nanos : Nat
  deriving DecidableEq, Repr, Inhabited

namespace Duration

def zero : Duration := ⟨0⟩

def ofSecs (n : Nat) : Duration := ⟨n * 1_000_000_000⟩

def ofMillis (n : Nat) : Duration := ⟨n * 1_000_000⟩

/-- The whole seconds. -/
def secs (d : Duration) : Nat := d.nanos / 1_000_000_000

/-- The nanoseconds beyond the whole seconds. -/
def subsecNanos (d : Duration) : Nat := d.nanos % 1_000_000_000

/-- The whole milliseconds. -/
def millis (d : Duration) : Nat := d.nanos / 1_000_000

instance : Add Duration := ⟨fun a b => ⟨a.nanos + b.nanos⟩⟩
instance : Sub Duration := ⟨fun a b => ⟨a.nanos - b.nanos⟩⟩
instance : LE Duration := ⟨fun a b => a.nanos ≤ b.nanos⟩
instance : LT Duration := ⟨fun a b => a.nanos < b.nanos⟩
instance (a b : Duration) : Decidable (a ≤ b) := Nat.decLe a.nanos b.nanos
instance (a b : Duration) : Decidable (a < b) := Nat.decLt a.nanos b.nanos

@[simp] theorem nanos_add (a b : Duration) : (a + b).nanos = a.nanos + b.nanos := rfl

@[simp] theorem nanos_sub (a b : Duration) : (a - b).nanos = a.nanos - b.nanos := rfl

theorem lt_def (a b : Duration) : a < b ↔ a.nanos < b.nanos := Iff.rfl

/-- The `places` digits of a fraction, without zeros at the end. -/
def fractionDigits (fraction places : Nat) : List Char :=
  let ds := Nat.toDigits 10 fraction
  let padded := List.replicate (places - ds.length) '0' ++ ds
  (padded.reverse.dropWhile (· == '0')).reverse

/-- A number of units of `10 ^ places` nanoseconds, with the unit's name. -/
def inUnit (d : Duration) (places : Nat) (unit : String) : String :=
  let whole := toString (d.nanos / Nat.pow 10 places)
  match fractionDigits (d.nanos % Nat.pow 10 places) places with
  | [] => whole ++ unit
  | fraction => whole ++ "." ++ String.ofList fraction ++ unit

/-- The span in the largest unit that leaves a whole part. -/
def text (d : Duration) : String :=
  if 1_000_000_000 ≤ d.nanos then d.inUnit 9 "s"
  else if 1_000_000 ≤ d.nanos then d.inUnit 6 "ms"
  else if 1_000 ≤ d.nanos then d.inUnit 3 "µs"
  else d.inUnit 0 "ns"

end Duration

end EmbedServer
