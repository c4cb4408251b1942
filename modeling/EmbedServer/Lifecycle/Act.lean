/-
What starting and stopping do to a server, one act at a time.
-/
import EmbedServer.Http.Server
import EmbedServer.Lifecycle.Error

namespace EmbedServer.Lifecycle

inductive Act where
  /-- Goes on to a later state; an earlier one is ignored. -/
  | advance (next : State)
  | publish (key : String) (status : Health.Status)
  | note (e : Log.Event)
  /-- Health is no longer given. -/
  | freeze
  /-- No more calls are taken. -/
  | drain
  /-- The drain timeout is over, with this many calls in flight. -/
  | exceed (inFlight : Nat) (timeout : Duration)
  /-- Computations under way are cancelled. -/
  | cancel
  /-- The transport is no longer waited for. -/
  | abort
  /-- The backend is told to let go of what it holds. -/
  | close
  /-- The backend has let go. -/
  | closed
  deriving DecidableEq, Repr

namespace Act

/-- Notes what happens in the lifecycle. -/
def tell (level : Log.Level) (message : String) : Act := .note (.plain .lifecycle level message)

/-- The event that tells of a new state. -/
def stateEvent (old new : State) : Log.Event :=
  .plain .lifecycle .info ("Lifecycle " ++ old.name ++ " -> " ++ new.name)

/-- The event that tells that the drain timeout is over. -/
def exceedEvent (inFlight : Nat) (timeout : Duration) : Log.Event :=
  .plain .lifecycle .warn ((ShutdownError.drainExceeded inFlight timeout).message ++ "; cancelling")

/-- Goes on to a later state. -/
def advanceCore {σ : Type} (c : Call.Core σ) (next : State) : Call.Core σ :=
  if c.state.rank < next.rank then
    { c with state := next }.logAll [stateEvent c.state next]
  else c

/-- The core of a server after an act that only concerns it. -/
def applyCore {σ : Type} (c : Call.Core σ) : Act → Call.Core σ
  | .advance next => advanceCore c next
  | .publish key status => c.publish key status
  | .note e => c.logAll [e]
  | .freeze => { c with health := c.health.freeze }
  | .exceed inFlight timeout => c.logAll [exceedEvent inFlight timeout]
  | .close => c.logAll (c.backend.close c.compute).events
  | .closed => { c with compute := (c.backend.close c.compute).settle c.compute }
  | .drain | .cancel | .abort => c

/-- The server after an act. -/
def apply {σ : Type} (s : Http.Server σ) : Act → Http.Server σ
  | .drain => s.drain.2
  | .cancel => s.cancelAll.2
  | a => { s with core := applyCore s.core a }

/-- The server after several acts. -/
def applyAll {σ : Type} (s : Http.Server σ) (acts : List Act) : Http.Server σ := acts.foldl apply s

end Act

end EmbedServer.Lifecycle
