/-
Backends that work by themselves: one answers the same vector every time, one answers noise, and one
follows a script.
-/
import EmbedServer.Backend.Basic

namespace EmbedServer.Backend

/-- Answers the same vector every time, after the same delay. -/
def stub (vector : List Float) (delay : Duration) : Backend Unit where
  name := "stub"
  compute _ text :=
    { begun := ()
      events := [.plain .stub .debug
        ("Stub backend computing " ++ toString text.utf8ByteSize ++ " byte(s)")]
      takes := some delay
      answer := .ok vector }
  close _ := .nothing

/-! ### Noise -/

/-- The next state of the noise. -/
def noiseStep (seed : UInt64) : UInt64 := seed + 0x9E3779B97F4A7C15

/-- The number that a state of the noise stands for, in `[-1, 1)`. -/
def noiseValue (seed : UInt64) : Float :=
  let z := (seed ^^^ (seed >>> 30)) * 0xBF58476D1CE4E5B9
  let z := (z ^^^ (z >>> 27)) * 0x94D049BB133111EB
  let z := z ^^^ (z >>> 31)
  (z >>> 11).toFloat / 4503599627370496.0 - 1.0

/-- `n` numbers, and the state after them. -/
def noise : (n : Nat) → UInt64 → List Float × UInt64
  | 0, seed => ([], seed)
  | n + 1, seed =>
    let (xs, last) := noise n (noiseStep seed)
    (noiseValue seed :: xs, last)

/-- Answers noise of a fixed dimension, different every time. -/
def random (dimension : Nat) : Backend UInt64 where
  name := "random"
  compute seed _ :=
    let (vector, seed) := noise dimension seed
    { begun := seed, events := [], takes := some .zero, answer := .ok vector }
  close _ := .nothing

/-! ### A script -/

/-- What a scripted backend has gone through: the texts it was asked for and how often it was
closed. -/
structure ScriptState where
  texts : List String
  closes : Nat
  deriving DecidableEq, Repr

def ScriptState.start : ScriptState := ⟨[], 0⟩

/-- The answers of a scripted backend, its delay, and the time it takes to close. -/
structure Script where
  /-- The answers in order; the last one repeats. -/
  outcomes : List Answer
  delay : Duration
  closeDelay : Duration

/-- The answer to call number `n`, counted from zero.  Without a script it is the size of the text in
bytes, its length in characters, and the number of the call counted from one. -/
def Script.answer (s : Script) (n : Nat) (text : String) : Answer :=
  match s.outcomes[n]?.or s.outcomes.getLast? with
  | some a => a
  | none =>
    .ok [text.utf8ByteSize.toUInt64.toFloat, text.length.toUInt64.toFloat,
      (n + 1).toUInt64.toFloat]

/-- Follows a script, and remembers what it was asked. -/
def scripted (s : Script) : Backend ScriptState where
  name := "double"
  compute state text :=
    { begun := { state with texts := state.texts ++ [text] }
      events := []
      takes := some s.delay
      answer := s.answer state.texts.length text }
  close _ := ⟨[], some s.closeDelay, fun state => { state with closes := state.closes + 1 }⟩

end EmbedServer.Backend
