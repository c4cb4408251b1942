/-
Dates and times of day: their reading and their text.

A date, a time of day, or both with an optional offset.  Fractions of a second are kept to the
nanosecond and written without zeros at the end.
-/
import EmbedServer.Duration
import EmbedServer.Decimal.Reader

namespace EmbedServer.Toml

/-- A date. -/
structure Day where
  year : Nat
  month : Nat
  day : Nat

/-- A time of day. -/
structure Clock where
  hour : Nat
  minute : Nat
  second : Nat
  nanos : Nat

/-- The distance from universal time. -/
inductive Offset where
  | zulu
  | custom (negative : Bool) (hours minutes : Nat)

structure Date where
  day : Option Day
  clock : Option Clock
  offset : Option Offset

/-- The number that `count` digits spell. -/
def digits? : (count n : Nat) → List Char → Option (Nat × List Char)
  | 0, n, rest => some (n, rest)
  | count + 1, n, c :: rest =>
    if c.isDigit then digits? count (n * 10 + Decimal.digitValue c) rest else none
  | _ + 1, _, [] => none

/-- Takes one given character. -/
def mark? (c : Char) : List Char → Option (List Char)
  | d :: rest => if d = c then some rest else none
  | [] => none

def Day.read? (cs : List Char) : Option (Day × List Char) := do
  let (year, cs) ← digits? 4 0 cs
  let (month, cs) ← digits? 2 0 (← mark? '-' cs)
  let (day, cs) ← digits? 2 0 (← mark? '-' cs)
  if 1 ≤ month ∧ month ≤ 12 ∧ 1 ≤ day ∧ day ≤ 31 then pure (⟨year, month, day⟩, cs) else none

/-- The nanoseconds of a fraction of a second; digits past the ninth are dropped. -/
def fractionNanos (ds : List Char) : Nat :=
  let kept := ds.take 9
  Decimal.ofDigits kept * Nat.pow 10 (9 - kept.length)

def Clock.read? (cs : List Char) : Option (Clock × List Char) := do
  let (hour, cs) ← digits? 2 0 cs
  let (minute, cs) ← digits? 2 0 (← mark? ':' cs)
  let (second, cs) ← digits? 2 0 (← mark? ':' cs)
  let (nanos, cs) ← match cs with
    | '.' :: more =>
      let ds := more.takeWhile Char.isDigit
      if ds.isEmpty then none else some (fractionNanos ds, more.dropWhile Char.isDigit)
    | _ => some (0, cs)
  if hour ≤ 24 ∧ minute ≤ 59 ∧ second ≤ 59 then pure (⟨hour, minute, second, nanos⟩, cs) else none

def Offset.read? : List Char → Option (Option Offset)
  | [] => some none
  | [c] => if c = 'Z' ∨ c = 'z' then some (some .zulu) else none
  | c :: rest =>
    if c = '+' ∨ c = '-' then do
      let (hours, rest) ← digits? 2 0 rest
      let (minutes, rest) ← digits? 2 0 (← mark? ':' rest)
      if rest.isEmpty then pure (some (.custom (c == '-') hours minutes)) else none
    else none

/-- Reads a date, a time of day, or both. -/
def Date.read? (cs : List Char) : Option Date :=
  if cs[2]? = some ':' then do
    let (clock, rest) ← Clock.read? cs
    if rest.isEmpty then pure ⟨none, some clock, none⟩ else none
  else do
    let (day, rest) ← Day.read? cs
    match rest with
    | [] => pure ⟨some day, none, none⟩
    | c :: rest =>
      if c = 'T' ∨ c = 't' ∨ c = ' ' then
        let (clock, rest) ← Clock.read? rest
        let offset ← Offset.read? rest
        pure ⟨some day, some clock, offset⟩
      else none

/-- A number with at least `width` digits. -/
def padded (width n : Nat) : String :=
  let ds := Nat.toDigits 10 n
  String.ofList (List.replicate (width - ds.length) '0' ++ ds)

def Day.text (d : Day) : String :=
  padded 4 d.year ++ "-" ++ padded 2 d.month ++ "-" ++ padded 2 d.day

def Clock.text (c : Clock) : String :=
  padded 2 c.hour ++ ":" ++ padded 2 c.minute ++ ":" ++ padded 2 c.second
    ++ match Duration.fractionDigits c.nanos 9 with
      | [] => ""
      | ds => "." ++ String.ofList ds

def Offset.text : Offset → String
  | .zulu => "Z"
  | .custom negative hours minutes =>
    (if negative ∧ hours ≠ 0 then "-" else "+") ++ padded 2 hours ++ ":" ++ padded 2 minutes

def Date.text (d : Date) : String :=
  let day := (d.day.map Day.text).getD ""
  let clock := (d.clock.map Clock.text).getD ""
  let joint := if d.day.isSome ∧ d.clock.isSome then "T" else ""
  day ++ joint ++ clock ++ (d.offset.map Offset.text).getD ""

end EmbedServer.Toml
