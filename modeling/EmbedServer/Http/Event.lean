/-
What can happen to a server while it runs.

Requests come, callers go away, time passes, the registry is written, the lifecycle moves on and
signals fire.  After each event the server does whatever can be done.  A history is a list of
events, so what holds of every history is shown for one event and carried along the list.
-/
import EmbedServer.Http.Server

namespace EmbedServer.Http

/-- Something that happens to a server. -/
inductive Event where
  | request (r : Request)
  /-- The caller with this number goes away. -/
  | leave (id : Nat)
  | pass (time : Duration)
  | enter (state : Lifecycle.State)
  | publish (key : String) (status : Health.Status)
  | publishAll (status : Health.Status)
  /-- Health is no longer given. -/
  | freeze
  /-- No more calls are taken. -/
  | drain
  /-- Computations under way are cancelled. -/
  | cancel
  deriving DecidableEq, Repr

namespace Server

variable {σ : Type}

/-- What an event changes by itself. -/
def meet (s : Server σ) : Event → Server σ
  | .request r => s.receive r
  | .leave id => s.abort id
  | .pass time => { s with core := { s.core with now := s.core.now + time.nanos } }
  | .enter state => { s with core := { s.core with state } }
  | .publish key status => { s with core := s.core.publish key status }
  | .publishAll status => { s with core := { s.core with health := s.core.health.setAll status } }
  | .freeze => { s with core := { s.core with health := s.core.health.freeze } }
  | .drain => s.drain.2
  | .cancel => s.cancelAll.2

/-- The server after an event. -/
def step (s : Server σ) (e : Event) : Server σ := (s.meet e).settle

/-- The server after a history. -/
def run (s : Server σ) (history : List Event) : Server σ := history.foldl step s

end Server

end EmbedServer.Http
