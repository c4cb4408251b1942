/-
The endpoint of all calls.

Questions about health are answered from the registry at any time.  Computations are admitted only
while the server runs; an admitted one counts as in flight until it is answered or given up, and
counts as cancelled if its outcome says so.
-/
import EmbedServer.Call.Pipeline
import EmbedServer.Lifecycle.State

namespace EmbedServer.Call

/-- Whether an outcome is a cancellation. -/
def isCancelled : Outcome → Bool
  | .error e => e.code == .cancelled
  | .ok _ => false

/-- The endpoint of an admitted computation's way back. -/
def discharge (context : Context) (o : Outcome) : Returned :=
  ⟨(if isCancelled o then [.sample .cancelled] else []) ++ [.sample .finished], context, o⟩

/-- The endpoint, for a server in this state with this registry. -/
def dispatch (state : Lifecycle.State) (health : Health.Registry) : Service := fun context request =>
  match request with
  | .predict chunk =>
    if state = .running then
      ⟨[.sample .started], .computing chunk, fun _ o => discharge context o⟩
    else .answered context (.error .shuttingDown)
  | .check q => .answered context (.ok (.health ⟨health.get q.service⟩))

end EmbedServer.Call
