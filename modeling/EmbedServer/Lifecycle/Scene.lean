/-
What those who follow a key see of a started server.

A turn shows to them if it writes the registry or fires the signal that no more calls are taken.  Of the
looks at requests each stream sees those at itself, in which it is polled until it has nothing more to
tell.  So every run of the tasks is a history for every stream.
-/
import EmbedServer.Http.Scene
import EmbedServer.Lifecycle.Tasks

namespace EmbedServer

namespace Http.Server

variable {σ : Type}

def scene (s : Server σ) : Scene := ⟨s.core.health, s.draining⟩

/-- The polls in a look at a stream. -/
def glance (s : Server σ) (f : Follow) : List Scene.Move :=
  List.replicate (f.polls s.core.health s.draining.ready 3) .poll

/-- The polls in a look at the request with this number. -/
def glanceAt (s : Server σ) (id : Nat) : List Scene.Move :=
  match s.exchanges[id]?.map Exchange.phase with
  | some (.following f _) => s.glance f
  | _ => []

end Http.Server

namespace Lifecycle

open Http (Scene)

/-- What there is to see of an act. -/
def Act.moves : Act → List Scene.Move
  | .publish key status => [.write (.set key status)]
  | .freeze => [.write .freeze]
  | .drain => [.drain]
  | .advance _ | .note _ | .exceed .. | .cancel | .abort | .close | .closed => []

namespace Tasks

variable {σ : Type}

/-- What there is to see of a turn for the stream with this number. -/
def moves (t : Tasks σ) (id : Nat) : Turn → List Scene.Move
  | .publish key status => [.write (.set key status)]
  | .publishAll status => [.write (.setAll status)]
  | .act => (t.todo.head?.map Act.moves).getD []
  | .look i => if i = id then t.wire.glanceAt id else []
  | .receive _ | .leave _ | .pass _ | .note _ | .trigger _ | .send | .retain | .release | .finish
    | .wake _ => []

/-- What there is to see of a run for the stream with this number. -/
def history (id : Nat) : Tasks σ → List Turn → List Scene.Move
  | _, [] => []
  | t, u :: rest => t.moves id u ++ history id (t.step u) rest

end Tasks

end Lifecycle

end EmbedServer
