/-
What computes vectors.

A backend has a state.  Beginning a computation says at once all that will come of it: the state it
leaves while it runs, the events it logs, how long it takes if nobody stops it, its answer, and what
a run to the end does to the state.  A computation that is given up leaves the state as it was begun.
-/
import EmbedServer.Backend.Error
import EmbedServer.Log

namespace EmbedServer

namespace Backend

/-- The answer of a computation. -/
abbrev Answer := Except Error (List Float)

/-- A computation that has begun. -/
structure Computation (σ : Type) where
  /-- The state of the backend once the computation has begun. -/
  begun : σ
  /-- What is logged when it begins. -/
  events : List Log.Event
  /-- How long it takes; `none` if it never ends. -/
  takes : Option Duration
  answer : Answer
  /-- What is logged when it ends. -/
  finalEvents : List Log.Event := []
  /-- What a run to the end does to the state. -/
  settle : σ → σ := id

/-- A computation that runs to its end: the state after it, and all that is logged. -/
def Computation.finished {σ : Type} (c : Computation σ) : σ × List Log.Event :=
  (c.settle c.begun, c.events ++ c.finalEvents)

/-- The release of what a backend holds. -/
structure Closing (σ : Type) where
  events : List Log.Event
  /-- How long it takes; `none` if it never ends. -/
  takes : Option Duration
  /-- What a run to the end does to the state. -/
  settle : σ → σ

end Backend

/-- What computes vectors; `σ` is its state. -/
structure Backend (σ : Type) where
  name : String
  compute : σ → String → Backend.Computation σ
  close : σ → Backend.Closing σ

namespace Backend

/-- A backend that is closed: its state after that, and what is logged. -/
def closed {σ : Type} (b : Backend σ) (s : σ) : σ × List Log.Event :=
  let c := b.close s
  (c.settle s, c.events)

/-- A release that takes no time and does nothing. -/
def Closing.nothing {σ : Type} : Closing σ := ⟨[], some .zero, id⟩

/-- A backend of any kind, with its state. -/
structure Packed where
  State : Type
  backend : Backend State
  state : State

end Backend

end EmbedServer
